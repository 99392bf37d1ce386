import MessageCrate.Search.Grammar
import MessageCrate.Search.Negation

/- Where a query's words stand in its text does not matter.

   A token and a field term carry the bytes they came from, for the errors to point at. Text that
   is put behind other text keeps its tokens and moves their spans. This file

   1. moves the spans of a derivation (`OrParts.respan`);
   2. shows that a tree matches the same rows whatever its spans (`matches_respan`): an emitter
      reads a span when it refuses a value, and nowhere else. -/
namespace MessageCrate

/-- The token with its span sent through `g`. -/
def Token.respan (g : Nat × Nat → Nat × Nat) (tok : Token) : Token := { tok with span := g tok.span }

def FieldTerm.respan (g : Nat × Nat → Nat × Nat) (t : FieldTerm) : FieldTerm :=
  { t with span := g t.span }

mutual
def Expr.respan (g : Nat × Nat → Nat × Nat) : Expr → Expr
  | .and parts => .and (respanAll g parts)
  | .or parts => .or (respanAll g parts)
  | .not e => .not (e.respan g)
  | .field t => .field (t.respan g)
  | .text t => .text t

def Expr.respanAll (g : Nat × Nat → Nat × Nat) : List Expr → List Expr
  | [] => []
  | e :: es => e.respan g :: respanAll g es
end

section respan
variable (g : Nat × Nat → Nat × Nat)

theorem respanAll_eq_map (es : List Expr) : Expr.respanAll g es = es.map (Expr.respan g) := by
  induction es with
  | nil => rfl
  | cons e es ih => rw [Expr.respanAll, ih, List.map_cons]

theorem respan_collapse_and (es : List Expr) :
    (collapse .and es).respan g = collapse .and (es.map (Expr.respan g)) := by
  match es with
  | [] => simp [collapse, Expr.respan, Expr.respanAll]
  | [e] => rfl
  | e :: e' :: es => simp [collapse, Expr.respan, respanAll_eq_map]

theorem respan_collapse_or (es : List Expr) :
    (collapse .or es).respan g = collapse .or (es.map (Expr.respan g)) := by
  match es with
  | [] => simp [collapse, Expr.respan, Expr.respanAll]
  | [e] => rfl
  | e :: e' :: es => simp [collapse, Expr.respan, respanAll_eq_map]

/-- A field is accepted wherever it stands. -/
theorem fieldTerm_respan {list : ListKind} {today : NaiveDate} {word value : String}
    {quoted : Bool} {span : Nat × Nat} {t : FieldTerm}
    (h : fieldTerm list word value quoted span today = .ok t) :
    fieldTerm list word value quoted (g span) today = .ok (t.respan g) := by
  unfold fieldTerm at h ⊢
  cases hlookup : lookup word with
  | none =>
    rw [hlookup] at h
    cases h
  | some spec =>
    rw [hlookup] at h
    simp only at h ⊢
    generalize (if quoted then [value]
      else ((value.toList.splitOn ',').map String.ofList).filter (fun p => !isBlank p)) = pieces at h ⊢
    split at h
    · cases h
    split at h
    · cases h
    split at h
    · cases h
    · next hlist hblank hpieces =>
      rw [if_neg hlist, if_neg hblank, if_neg hpieces]
      split at h
      · cases h
      · next values hvalues =>
        cases h
        rfl

variable {list : ListKind} {today : NaiveDate}

mutual
/-- A derivation, elsewhere in the text. -/
theorem OrParts.respan : ∀ {ts : List Token} {parts : List Expr} {n : Nat},
    OrParts list today ts parts n →
      OrParts list today (ts.map (Token.respan g)) (parts.map (Expr.respan g)) n
  | _, _, _, .last hand => by
    rw [List.map_singleton, respan_collapse_and]
    exact .last hand.respan
  | _, _, _, .or hand htok hor => by
    rw [List.map_append, List.map_cons, List.map_cons, respan_collapse_and]
    exact .or hand.respan htok hor.respan

theorem AndParts.respan : ∀ {ts : List Token} {es : List Expr} {n : Nat},
    AndParts list today ts es n →
      AndParts list today (ts.map (Token.respan g)) (es.map (Expr.respan g)) n
  | _, _, _, .last hunary => .last hunary.respan
  | _, _, _, .and hunary htok hand => by
    rw [List.map_append, List.map_cons, List.map_cons]
    exact .and hunary.respan htok hand.respan
  | _, _, _, .space hunary hand => by
    rw [List.map_append, List.map_cons]
    exact .space hunary.respan hand.respan

theorem Unary.respan : ∀ {ts : List Token} {e : Expr} {n : Nat},
    Unary list today ts e n → Unary list today (ts.map (Token.respan g)) (e.respan g) n
  | _, _, _, .not htok hunary => .not htok hunary.respan
  | _, _, _, .minus htok hprimary => .minus htok hprimary.respan
  | _, _, _, .plain htok hprimary => .plain htok hprimary.respan

theorem Primary.respan : ∀ {ts : List Token} {e : Expr} {n : Nat},
    Primary list today ts e n → Primary list today (ts.map (Token.respan g)) (e.respan g) n
  | _, _, _, .group htok hor hclose => by
    rw [List.map_cons, List.map_append, List.map_singleton, respan_collapse_or]
    exact .group htok hor.respan hclose
  | _, _, _, .field htok hterm => .field htok (fieldTerm_respan g hterm)
  | _, _, _, .term htok => .term htok
  | _, _, _, .phrase htok htext => .phrase htok htext
end

end respan

/-! What a tree matches. -/

/-- The two are refused together, or answer the same. -/
def SameAnswer {α : Type} (x y : Except QueryError α) : Prop := ∀ a, x = .ok a ↔ y = .ok a

section answers
variable {α β : Type} {x y : Except QueryError α}

theorem SameAnswer.refl (x : Except QueryError α) : SameAnswer x x := fun _ => Iff.rfl

theorem SameAnswer.error (err err' : QueryError) :
    SameAnswer (.error err : Except QueryError α) (.error err') := by
  intro a
  constructor
  · intro h
    cases h
  · intro h
    cases h

theorem SameAnswer.bind {f f' : α → Except QueryError β} (h : SameAnswer x y)
    (hf : ∀ a, SameAnswer (f a) (f' a)) : SameAnswer (x >>= f) (y >>= f') := by
  intro b
  constructor
  · intro heq
    obtain ⟨a, ha, hb⟩ := Except.of_bind_eq_ok heq
    rw [(h a).mp ha]
    exact (hf a b).mp hb
  · intro heq
    obtain ⟨a, ha, hb⟩ := Except.of_bind_eq_ok heq
    rw [(h a).mpr ha]
    exact (hf a b).mpr hb

theorem SameAnswer.map (h : SameAnswer x y) (f : α → β) : SameAnswer (x.map f) (y.map f) := by
  have hbind : ∀ z : Except QueryError α, z.map f = z >>= fun a => .ok (f a) := by
    intro z
    cases z with
    | error err => rfl
    | ok a => rfl
  rw [hbind, hbind]
  exact h.bind (fun a => .refl _)

end answers

/-! One lemma for each emitter that is given the term: it reads the span for a refusal only. -/

section emitters
variable (ctx : ListCtx) {t t' : FieldTerm} (v : Value)

theorem sameAnswer_textMatch (column : String) :
    SameAnswer (textMatch column t v) (textMatch column t' v) := by
  unfold textMatch
  split
  · exact .refl _
  · exact .refl _
  · exact .refl _
  · exact .refl _
  · exact .error _ _

theorem sameAnswer_identityMatch (start : String) :
    SameAnswer (identityMatch start t v) (identityMatch start t' v) :=
  (sameAnswer_textMatch v _).bind (fun _ => (sameAnswer_textMatch v _).bind (fun _ => .refl _))

theorem sameAnswer_emitContactIdentity :
    SameAnswer (emitContactIdentity t v) (emitContactIdentity t' v) := by
  unfold emitContactIdentity
  split
  · exact .refl _
  · exact .refl _
  · exact sameAnswer_identityMatch _ _
  · exact sameAnswer_identityMatch _ _
  · exact .error _ _

theorem sameAnswer_emitConversationIdentity :
    SameAnswer (emitConversationIdentity t v) (emitConversationIdentity t' v) := by
  unfold emitConversationIdentity
  split
  · exact .refl _
  · exact .refl _
  · exact sameAnswer_identityMatch _ _
  · exact sameAnswer_identityMatch _ _
  · exact .error _ _

theorem sameAnswer_emitTextWord (h : t.spec = t'.spec) :
    SameAnswer (emitTextWord ctx t v) (emitTextWord ctx t' v) := by
  unfold emitTextWord
  rw [h]
  split
  · exact (sameAnswer_textMatch v _).map _
  · exact (sameAnswer_textMatch v _).map _
  · exact (sameAnswer_textMatch v _).map _
  · exact sameAnswer_textMatch v _
  · exact (sameAnswer_textMatch v _).bind (fun _ => .refl _)
  · exact sameAnswer_emitContactIdentity v
  · exact (sameAnswer_emitConversationIdentity v).map _
  · exact (sameAnswer_textMatch v _).bind (fun _ => .refl _)
  · exact .error _ _

theorem sameAnswer_personMatches (handleIdExpr : String) :
    SameAnswer (personMatches ctx handleIdExpr t v) (personMatches ctx handleIdExpr t' v) := by
  unfold personMatches
  split
  · exact .refl _
  · exact .refl _
  · exact .refl _
  · exact .error _ _

theorem sameAnswer_participantMatches :
    SameAnswer (participantMatches t v) (participantMatches t' v) := by
  unfold participantMatches
  split
  · exact .refl _
  · exact .refl _
  · exact .refl _
  · exact .error _ _

theorem sameAnswer_withPerson : SameAnswer (withPerson ctx t v) (withPerson ctx t' v) :=
  (sameAnswer_personMatches ctx v _).bind (fun _ =>
    (sameAnswer_personMatches ctx v _).bind (fun _ =>
      (sameAnswer_participantMatches v).bind (fun _ => .refl _)))

theorem sameAnswer_contains (set : NamedSet) :
    SameAnswer (set.contains t v) (set.contains t' v) := by
  unfold NamedSet.contains
  cases v with
  | text s => exact .refl _
  | pre s => exact .refl _
  | id i => exact .refl _
  | keyword kw => exact .error _ _
  | choice c => exact .error _ _
  | date cmp => exact .error _ _
  | count cmp => exact .error _ _
  | size cmp => exact .error _ _

theorem sameAnswer_emitFrom : SameAnswer (emitFrom ctx t v) (emitFrom ctx t' v) := by
  unfold emitFrom
  split
  · exact .refl _
  · exact (sameAnswer_personMatches ctx _ _).bind (fun _ => .refl _)

theorem sameAnswer_emitTo : SameAnswer (emitTo ctx t v) (emitTo ctx t' v) := by
  unfold emitTo
  split
  · exact .refl _
  · exact (sameAnswer_withPerson ctx _).bind (fun _ =>
      (sameAnswer_personMatches ctx _ _).bind (fun _ => .refl _))

theorem sameAnswer_emitIn : SameAnswer (emitIn ctx t v) (emitIn ctx t' v) := by
  unfold emitIn
  split
  · exact .refl _
  · exact .refl _
  · exact .refl _
  · exact .error _ _

theorem sameAnswer_emitSetWord (set : NamedSet) :
    SameAnswer (emitSetWord ctx t v set) (emitSetWord ctx t' v set) := by
  unfold emitSetWord
  split
  · exact .refl _
  · split
    · exact .refl _
    · exact (sameAnswer_contains _ set).map _
  · exact (sameAnswer_contains _ set).map _

theorem sameAnswer_emitImport : SameAnswer (emitImport ctx t v) (emitImport ctx t' v) := by
  have hrun : SameAnswer (importRun ctx t v) (importRun ctx t' v) := by
    unfold importRun
    split
    · exact .refl _
    · exact .refl _
    · exact .error _ _
  exact hrun.bind (fun _ => .refl _)

theorem sameAnswer_emitPeopleWord (h : t.spec = t'.spec) :
    SameAnswer (emitPeopleWord ctx t v) (emitPeopleWord ctx t' v) := by
  unfold emitPeopleWord
  rw [h]
  split
  · exact (sameAnswer_withPerson ctx v)
  · exact (sameAnswer_emitFrom ctx v)
  · exact (sameAnswer_emitTo ctx v)
  · exact (sameAnswer_emitIn ctx v)
  · exact (sameAnswer_emitSetWord ctx v _)
  · exact (sameAnswer_emitSetWord ctx v _)
  · exact (sameAnswer_emitImport ctx v)
  · exact .error _ _

theorem sameAnswer_emitKindWord (h : t.spec = t'.spec) :
    SameAnswer (emitKindWord ctx t v) (emitKindWord ctx t' v) := by
  unfold emitKindWord
  rw [h]
  split
  · exact .refl _
  · exact .refl _
  · exact .refl _
  · exact .refl _
  · exact .refl _
  · exact .refl _
  · exact .error _ _

theorem sameAnswer_emitMeasureWord (h : t.spec = t'.spec) :
    SameAnswer (emitMeasureWord ctx t v) (emitMeasureWord ctx t' v) := by
  unfold emitMeasureWord
  rw [h]
  split
  all_goals first | exact .refl _ | exact .error _ _

theorem sameAnswer_emitOne (h : t.spec = t'.spec) :
    SameAnswer (emitOne ctx t v) (emitOne ctx t' v) := by
  unfold emitOne
  rw [h]
  split
  all_goals first
    | exact sameAnswer_emitTextWord ctx v h
    | exact sameAnswer_emitPeopleWord ctx v h
    | exact sameAnswer_emitKindWord ctx v h
    | exact sameAnswer_emitMeasureWord ctx v h
    | exact .error _ _

theorem sameAnswer_emitValues (h : t.spec = t'.spec) : ∀ vs : List Value,
    SameAnswer (emitValues ctx t vs) (emitValues ctx t' vs)
  | [] => .refl _
  | v :: vs => (sameAnswer_emitOne ctx v h).bind (fun _ =>
      (sameAnswer_emitValues h vs).bind (fun _ => .refl _))

theorem sameAnswer_emitField (h : t.spec = t'.spec) (hvalues : t.values = t'.values) :
    SameAnswer (emitField ctx t) (emitField ctx t') := by
  unfold emitField
  rw [hvalues]
  exact (sameAnswer_emitValues ctx h _).bind (fun _ => .refl _)

end emitters

mutual
/-- **A tree matches the same rows wherever its words stand.** -/
theorem matches_respan (g : Nat × Nat → Nat × Nat) (ctx : ListCtx) (v : Valuation) :
    ∀ e : Expr, (e.respan g).Matches ctx v ↔ e.Matches ctx v
  | .and parts => by
    rw [Expr.respan, Expr.Matches, Expr.Matches]
    exact (matches_respanAll g ctx v parts).1
  | .or parts => by
    rw [Expr.respan, Expr.Matches, Expr.Matches]
    exact (matches_respanAll g ctx v parts).2
  | .not e => by
    rw [Expr.respan, Expr.Matches, Expr.Matches]
    exact not_congr (matches_respan g ctx v e)
  | .field t => by
    rw [Expr.respan, Expr.Matches, Expr.Matches]
    have hsame : SameAnswer (emitField ctx (t.respan g)) (emitField ctx t) :=
      sameAnswer_emitField ctx rfl rfl
    exact exists_congr (fun s => and_congr_left' (hsame s))
  | .text t => by rw [Expr.respan]

theorem matches_respanAll (g : Nat × Nat → Nat × Nat) (ctx : ListCtx) (v : Valuation) :
    ∀ es : List Expr,
      (Expr.matchesAll ctx v (Expr.respanAll g es) ↔ Expr.matchesAll ctx v es) ∧
        (Expr.matchesSome ctx v (Expr.respanAll g es) ↔ Expr.matchesSome ctx v es)
  | [] => ⟨Iff.rfl, Iff.rfl⟩
  | e :: es => by
    obtain ⟨hall, hsome⟩ := matches_respanAll g ctx v es
    simp only [Expr.respanAll, Expr.matchesAll, Expr.matchesSome]
    exact ⟨and_congr (matches_respan g ctx v e) hall, or_congr (matches_respan g ctx v e) hsome⟩
end

mutual
theorem textTerms_respan (g : Nat × Nat → Nat × Nat) : ∀ e : Expr,
    (e.respan g).textTerms = e.textTerms
  | .and parts => by simp only [Expr.respan, Expr.textTerms, textTermsOf_respanAll g parts]
  | .or parts => by simp only [Expr.respan, Expr.textTerms, textTermsOf_respanAll g parts]
  | .not e => by simp only [Expr.respan, Expr.textTerms, textTerms_respan g e]
  | .field t => rfl
  | .text t => rfl

theorem textTermsOf_respanAll (g : Nat × Nat → Nat × Nat) : ∀ es : List Expr,
    Expr.textTermsOf (Expr.respanAll g es) = Expr.textTermsOf es
  | [] => rfl
  | e :: es => by
    simp only [Expr.respanAll, Expr.textTermsOf, textTerms_respan g e, textTermsOf_respanAll g es]
end

mutual
theorem uses_respan (g : Nat × Nat → Nat × Nat) (word : String) : ∀ e : Expr,
    (e.respan g).uses word = e.uses word
  | .and es => by rw [Expr.respan, Expr.uses, Expr.uses, usesAny_respanAll g word es]
  | .or es => by rw [Expr.respan, Expr.uses, Expr.uses, usesAny_respanAll g word es]
  | .not e => by rw [Expr.respan, Expr.uses, Expr.uses, uses_respan g word e]
  | .field t => rfl
  | .text t => rfl

theorem usesAny_respanAll (g : Nat × Nat → Nat × Nat) (word : String) : ∀ es : List Expr,
    Expr.usesAny word (Expr.respanAll g es) = Expr.usesAny word es
  | [] => rfl
  | e :: es => by
    rw [Expr.respanAll, Expr.usesAny, Expr.usesAny, uses_respan g word e, usesAny_respanAll g word es]
end

mutual
theorem nodes_respan (g : Nat × Nat → Nat × Nat) : ∀ e : Expr, (e.respan g).nodes = e.nodes
  | .and parts => by simp only [Expr.respan, Expr.nodes, nodesOf_respanAll g parts]
  | .or parts => by simp only [Expr.respan, Expr.nodes, nodesOf_respanAll g parts]
  | .not e => by simp only [Expr.respan, Expr.nodes, nodes_respan g e]
  | .field t => rfl
  | .text t => rfl

theorem nodesOf_respanAll (g : Nat × Nat → Nat × Nat) : ∀ es : List Expr,
    Expr.nodesOf (Expr.respanAll g es) = Expr.nodesOf es
  | [] => rfl
  | e :: es => by
    simp only [Expr.respanAll, Expr.nodesOf, nodes_respan g e, nodesOf_respanAll g es]
end

end MessageCrate

import MessageCrate.Search.Closed
import MessageCrate.Search.Compile

/- Typed text never reaches the SQL (`crates/server/server/src/search/emit.rs` and
   `search/mod.rs`).

   `Expr.erase` takes from a tree every text and number of the person who typed it, and
   keeps its words, keywords, choices, dates and comparison signs.

   1. Emitters write fragments of one shape for terms of one erasure (`sameShape_emitOne`,
      `sameShape_emitExpr`), and fragments of one shape are the same SQL, so the text
      `compile` answers depends on the erasure alone (`whereSql_erase`).
   2. What `compile` writes has no `?` in its raw text (`closedOk_compileSql`), so each
      placeholder has its own parameter (`Filter.Aligned`). `andWhere` and `messagesOf`
      keep this.
   3. `typed_text_never_reaches_sql`: both, of all three. -/
namespace MessageCrate
open SqlText

/-! Trees without what was typed. -/

def TextTerm.erase : TextTerm → TextTerm
  | .term _ pre => .term "" pre
  | .phrase _ => .phrase ""

/-- The same comparison, of nothing in particular. -/
def Cmp.erase : Cmp → Cmp
  | .eq _ => .eq 0
  | .gt _ => .gt 0
  | .gte _ => .gte 0
  | .lt _ => .lt 0
  | .lte _ => .lte 0
  | .range _ _ => .range 0 0

def Value.erase : Value → Value
  | .text _ => .text ""
  | .pre _ => .pre ""
  | .id _ => .id 0
  | .keyword kw => .keyword kw
  | .choice c => .choice c
  | .date cmp => .date cmp
  | .count cmp => .count cmp.erase
  | .size cmp => .size cmp.erase

def FieldTerm.erase (t : FieldTerm) : FieldTerm := { t with values := t.values.map Value.erase }

mutual
/-- The tree with no text and no number of the person who typed it. -/
def Expr.erase : Expr → Expr
  | .and parts => .and (eraseAll parts)
  | .or parts => .or (eraseAll parts)
  | .not e => .not e.erase
  | .field t => .field t.erase
  | .text t => .text t.erase

def Expr.eraseAll : List Expr → List Expr
  | [] => []
  | e :: es => e.erase :: eraseAll es
end

/-- The same refusal, or fragments of one shape. -/
def SameShape (x y : Except QueryError Sql) : Prop := x.map shape = y.map shape

section combinators
variable {x y : Except QueryError Sql}

theorem SameShape.map {f g : Sql → Sql} (h : SameShape x y)
    (hfg : ∀ s t, shape s = shape t → shape (f s) = shape (g t)) :
    SameShape (x.map f) (y.map g) := by
  cases x with
  | error err =>
    cases y with
    | error err' => exact h
    | ok t => cases h
  | ok s =>
    cases y with
    | error err' => cases h
    | ok t => exact congrArg Except.ok (hfg s t (Except.ok.inj h))

theorem SameShape.bind {f g : Sql → Except QueryError Sql} (h : SameShape x y)
    (hfg : ∀ s t, shape s = shape t → SameShape (f s) (g t)) : SameShape (x >>= f) (y >>= g) := by
  cases x with
  | error err =>
    cases y with
    | error err' => exact congrArg Except.error (Except.error.inj h)
    | ok t => cases h
  | ok s =>
    cases y with
    | error err' => cases h
    | ok t => exact hfg s t (Except.ok.inj h)

theorem SameShape.ok {s t : Sql} (h : shape s = shape t) : SameShape (.ok s) (.ok t) :=
  congrArg Except.ok h

end combinators

section wrappers
variable (ctx : ListCtx) {s t : Sql} (h : shape s = shape t)
include h

theorem shape_conversation : shape (ctx.conversation s) = shape (ctx.conversation t) := by
  unfold ListCtx.conversation
  split <;> simp [h]

theorem shape_message : shape (ctx.message s) = shape (ctx.message t) := by
  unfold ListCtx.message
  split <;> simp [h]

theorem shape_contact : shape (ctx.contact s) = shape (ctx.contact t) := by
  unfold ListCtx.contact
  split <;> simp [h]

theorem shape_reach (list : ListKind) : shape (ctx.reach list s) = shape (ctx.reach list t) := by
  unfold ListCtx.reach
  split
  · exact shape_contact ctx h
  · exact shape_conversation ctx h
  · exact shape_message ctx h

end wrappers

section emitters
variable (ctx : ListCtx) (term : FieldTerm) (v : Value)

theorem shape_likeContains (column t : String) (pre : Bool) :
    shape (likeContains column t pre) = shape (likeContains column "" pre) := by
  cases pre with
  | true => rfl
  | false => rfl

theorem shape_freeTextMatch (column : String) (t : TextTerm) :
    shape (freeTextMatch column t) = shape (freeTextMatch column t.erase) := by
  cases t with
  | term text pre => exact shape_likeContains column text pre
  | phrase text => exact shape_likeContains column text false

theorem shape_emitText (t : TextTerm) : shape (emitText ctx t) = shape (emitText ctx t.erase) := by
  have hindex : shape (matchingIds t) = shape (matchingIds t.erase) := rfl
  unfold emitText
  split
  · simp only [shape_append]
    rw [shape_freeTextMatch _ t, shape_freeTextMatch _ t, shape_freeTextMatch _ t]
  · simp only [shape_append]
    rw [shape_freeTextMatch _ t, shape_freeTextMatch _ t, shape_freeTextMatch _ t,
      shape_freeTextMatch _ t]
  · simp only [shape_append]
    rw [hindex, shape_freeTextMatch _ t]

theorem sameShape_textMatch (column : String) :
    SameShape (textMatch column term v) (textMatch column term.erase v.erase) := by
  cases v <;> rfl

theorem sameShape_identityMatch (start : String) :
    SameShape (identityMatch start term v) (identityMatch start term.erase v.erase) := by
  unfold identityMatch
  apply (sameShape_textMatch term v _).bind
  intro raw raw' hraw
  apply (sameShape_textMatch term v _).bind
  intro normalized normalized' hnormalized
  exact .ok (by simp [hraw, hnormalized])

theorem sameShape_emitContactIdentity :
    SameShape (emitContactIdentity term v) (emitContactIdentity term.erase v.erase) := by
  cases v with
  | text t => exact sameShape_identityMatch term (.text t) _
  | pre p => exact sameShape_identityMatch term (.pre p) _
  | _ => rfl

theorem sameShape_emitConversationIdentity :
    SameShape (emitConversationIdentity term v)
      (emitConversationIdentity term.erase v.erase) := by
  cases v with
  | text t => exact sameShape_identityMatch term (.text t) _
  | pre p => exact sameShape_identityMatch term (.pre p) _
  | _ => rfl

theorem sameShape_emitTextWord :
    SameShape (emitTextWord ctx term v) (emitTextWord ctx term.erase v.erase) := by
  have hspec : term.erase.spec = term.spec := rfl
  have hspan : term.erase.span = term.span := rfl
  have hmatch := sameShape_textMatch term v
  unfold emitTextWord
  rw [hspec, hspan]
  split
  · exact (hmatch _).map (fun _ _ h => shape_message ctx h)
  · exact (hmatch _).map (fun _ _ h => shape_message ctx h)
  · exact (hmatch _).map (fun _ _ h => shape_conversation ctx h)
  · exact hmatch _
  · apply (hmatch _).bind
    intro name name' hname
    exact .ok (shape_conversation ctx (by simp [hname]))
  · exact sameShape_emitContactIdentity term v
  · exact (sameShape_emitConversationIdentity term v).map
      (fun _ _ h => shape_conversation ctx h)
  · apply (hmatch _).bind
    intro name name' hname
    exact .ok (shape_message ctx (by simp [hname]))
  · rfl

theorem shape_personText (handleIdExpr t : String) (pre : Bool) :
    shape (personText ctx handleIdExpr t pre) = shape (personText ctx handleIdExpr "" pre) := by
  simp only [personText, shape_append]
  rw [shape_likeContains _ t, shape_likeContains _ t, shape_likeContains _ t]

theorem sameShape_personMatches (handleIdExpr : String) :
    SameShape (personMatches ctx handleIdExpr term v)
      (personMatches ctx handleIdExpr term.erase v.erase) := by
  cases v with
  | id id => exact .ok (by simp only [shape_append]; rfl)
  | text t => exact .ok (shape_personText ctx handleIdExpr t false)
  | pre p => exact .ok (shape_personText ctx handleIdExpr p true)
  | _ => rfl

theorem sameShape_participantMatches :
    SameShape (participantMatches term v) (participantMatches term.erase v.erase) := by
  cases v <;> rfl

theorem sameShape_withPerson :
    SameShape (withPerson ctx term v) (withPerson ctx term.erase v.erase) := by
  unfold withPerson
  apply (sameShape_personMatches ctx term v _).bind
  intro chat chat' hchat
  apply (sameShape_personMatches ctx term v _).bind
  intro handle handle' hhandle
  apply (sameShape_participantMatches term v).bind
  intro name name' hname
  exact .ok (shape_conversation ctx (by simp [hchat, hhandle, hname]))

theorem sameShape_contains (set : NamedSet) :
    SameShape (set.contains term v) (set.contains term.erase v.erase) := by
  cases v <;> rfl

/-- A keyword is the code's own word, and stays. -/
theorem eq_of_erase_keyword {v : Value} {kw : String} (h : v.erase = .keyword kw) :
    v = .keyword kw := by
  cases v <;> simp_all [Value.erase]

theorem sameShape_emitSetWord (set : NamedSet) :
    SameShape (emitSetWord ctx term v set) (emitSetWord ctx term.erase v.erase set) := by
  have hcontains := (sameShape_contains term v set).map
    (fun _ _ h => shape_reach ctx h set.home)
  unfold emitSetWord
  split
  · rfl
  · simp only [Value.erase] at hcontains ⊢
    split
    · rfl
    · exact hcontains
  · next hnone hunknown =>
    split
    · next heq => exact absurd (eq_of_erase_keyword heq) hnone
    · next heq => exact absurd (eq_of_erase_keyword heq) hunknown
    · exact hcontains

theorem sameShape_emitFrom :
    SameShape (emitFrom ctx term v) (emitFrom ctx term.erase v.erase) := by
  unfold emitFrom
  split
  · rfl
  · next hme =>
    split
    · next heq => exact absurd (eq_of_erase_keyword heq) hme
    · apply (sameShape_personMatches ctx term v _).bind
      intro sender sender' hsender
      exact .ok (by simp [hsender])

theorem sameShape_emitTo : SameShape (emitTo ctx term v) (emitTo ctx term.erase v.erase) := by
  unfold emitTo
  split
  · rfl
  · next hme =>
    split
    · next heq => exact absurd (eq_of_erase_keyword heq) hme
    · apply (sameShape_withPerson ctx term v).bind
      intro party party' hparty
      apply (sameShape_personMatches ctx term v _).bind
      intro sender sender' hsender
      exact .ok (by simp [hparty, hsender])

theorem shape_inText (t : String) (pre : Bool) :
    shape (inText ctx t pre) = shape (inText ctx "" pre) := by
  apply shape_conversation
  simp only [shape_append]
  rw [shape_likeContains _ t, shape_likeContains _ t]

theorem sameShape_emitIn : SameShape (emitIn ctx term v) (emitIn ctx term.erase v.erase) := by
  cases v with
  | text t => exact .ok (shape_inText ctx t false)
  | pre p => exact .ok (shape_inText ctx p true)
  | _ => rfl

theorem sameShape_emitImport :
    SameShape (emitImport ctx term v) (emitImport ctx term.erase v.erase) := by
  have hrun : SameShape (importRun ctx term v) (importRun ctx term.erase v.erase) := by
    cases v <;> rfl
  unfold emitImport
  apply hrun.bind
  intro run run' hshape
  split
  · exact .ok (by simp [hshape])
  · exact .ok (by simp [hshape])

theorem sameShape_emitPeopleWord :
    SameShape (emitPeopleWord ctx term v) (emitPeopleWord ctx term.erase v.erase) := by
  have hspec : term.erase.spec = term.spec := rfl
  unfold emitPeopleWord
  rw [hspec]
  split
  · exact sameShape_withPerson ctx term v
  · exact sameShape_emitFrom ctx term v
  · exact sameShape_emitTo ctx term v
  · exact sameShape_emitIn ctx term v
  · exact sameShape_emitSetWord ctx term v contactGroups
  · exact sameShape_emitSetWord ctx term v messageTags
  · exact sameShape_emitImport ctx term v
  · rfl

theorem shape_cmpSql (expr : String) (cmp : Cmp) :
    shape (cmpSql expr cmp) = shape (cmpSql expr cmp.erase) := by
  cases cmp <;> rfl

theorem emitKindWord_size (cmp : Cmp) :
    emitKindWord ctx term (.size cmp) =
      if term.spec.word = "size" then
        .ok (ctx.message
          (push "EXISTS (SELECT 1 FROM attachments a WHERE a.message_id = m.id AND a.size_bytes IS NOT NULL AND " ++
            cmpSql "a.size_bytes" cmp ++ push ")"))
      else .error (badValue term "needs a value this word accepts.") := by
  by_cases hsize : term.spec.word = "size"
  · simp [emitKindWord, hsize]
  · rw [if_neg hsize]
    unfold emitKindWord
    split <;> simp_all

theorem emitKindWord_other (hchoice : ∀ c, v ≠ .choice c) (hsize : ∀ cmp, v ≠ .size cmp) :
    emitKindWord ctx term v = .error (badValue term "needs a value this word accepts.") := by
  unfold emitKindWord
  split
  · exact absurd rfl (hchoice _)
  · exact absurd rfl (hchoice _)
  · exact absurd rfl (hchoice _)
  · exact absurd rfl (hchoice _)
  · exact absurd rfl (hsize _)
  · exact absurd rfl (hchoice _)
  · rfl

theorem sameShape_emitKindWord :
    SameShape (emitKindWord ctx term v) (emitKindWord ctx term.erase v.erase) := by
  have hspec : term.erase.spec = term.spec := rfl
  cases v with
  | size cmp =>
    rw [Value.erase, emitKindWord_size, emitKindWord_size, hspec]
    split
    · exact .ok (shape_message ctx (by simp [shape_cmpSql _ cmp]))
    · rfl
  | choice c => rfl
  | _ =>
    rw [Value.erase, emitKindWord_other _ _ _ (by simp) (by simp),
      emitKindWord_other _ _ _ (by simp) (by simp)]
    rfl

/-- The fragment a count word writes, where the word has one. -/
def countSql (word : String) (cmp : Cmp) : Option Sql :=
  match word with
  | "messages" => some (cmpSql (ctx.messageAggregate .count) cmp)
  | "conversations" =>
    some (cmpSql ("(SELECT COUNT(*) FROM conversations c2 WHERE " ++
      ctx.contactConversationsLink "c2" ++ ")") cmp)
  | "groups" =>
    some (cmpSql
      "(SELECT COUNT(*) FROM contact_group_members cgm JOIN contact_groups cg ON cg.id = cgm.group_id WHERE cgm.contact_id = ct.id AND cg.account_id = ct.account_id)"
      cmp)
  | "participants" =>
    some (ctx.conversation
      (cmpSql "(SELECT COUNT(*) FROM participants p WHERE p.conversation_id = c.id)" cmp))
  | "attachments" =>
    some (cmpSql "(SELECT COUNT(*) FROM attachments a WHERE a.message_id = m.id)" cmp)
  | _ => none

theorem emitMeasureWord_count (cmp : Cmp) :
    emitMeasureWord ctx term (.count cmp) =
      match countSql ctx term.spec.word cmp with
      | some s => .ok s
      | none => .error (badValue term "needs a value this word accepts.") := by
  unfold emitMeasureWord countSql
  split <;> simp_all

theorem shape_countSql (word : String) (cmp : Cmp) :
    (countSql ctx word cmp).map shape = (countSql ctx word cmp.erase).map shape := by
  unfold countSql
  split
  · exact congrArg some (shape_cmpSql _ cmp)
  · exact congrArg some (shape_cmpSql _ cmp)
  · exact congrArg some (shape_cmpSql _ cmp)
  · exact congrArg some (shape_conversation ctx (shape_cmpSql _ cmp))
  · exact congrArg some (shape_cmpSql _ cmp)
  · rfl

theorem emitMeasureWord_other (hdate : ∀ cmp, v ≠ .date cmp) (hcount : ∀ cmp, v ≠ .count cmp) :
    emitMeasureWord ctx term v = .error (badValue term "needs a value this word accepts.") := by
  unfold emitMeasureWord
  split
  · exact absurd rfl (hdate _)
  · exact absurd rfl (hdate _)
  · exact absurd rfl (hdate _)
  · exact absurd rfl (hcount _)
  · exact absurd rfl (hcount _)
  · exact absurd rfl (hcount _)
  · exact absurd rfl (hcount _)
  · exact absurd rfl (hcount _)
  · rfl

theorem sameShape_emitMeasureWord :
    SameShape (emitMeasureWord ctx term v) (emitMeasureWord ctx term.erase v.erase) := by
  have hspec : term.erase.spec = term.spec := rfl
  cases v with
  | count cmp =>
    have hshape := shape_countSql ctx term.spec.word cmp
    rw [Value.erase, emitMeasureWord_count, emitMeasureWord_count, hspec]
    cases hs : countSql ctx term.spec.word cmp with
    | none =>
      have hnone : countSql ctx term.spec.word cmp.erase = none := by simpa [hs] using hshape.symm
      rw [hnone]
      rfl
    | some s =>
      obtain ⟨t, ht, hst⟩ : ∃ t, countSql ctx term.spec.word cmp.erase = some t ∧
          shape t = shape s := by simpa [hs] using hshape.symm
      rw [ht]
      exact .ok hst.symm
  | date cmp => rfl
  | _ =>
    rw [Value.erase, emitMeasureWord_other _ _ _ (by simp) (by simp),
      emitMeasureWord_other _ _ _ (by simp) (by simp)]
    rfl

theorem sameShape_emitOne : SameShape (emitOne ctx term v) (emitOne ctx term.erase v.erase) := by
  have hspec : term.erase.spec = term.spec := rfl
  have hspan : term.erase.span = term.span := rfl
  unfold emitOne
  rw [hspec, hspan]
  split
  all_goals first
    | exact sameShape_emitTextWord ctx term v
    | exact sameShape_emitPeopleWord ctx term v
    | exact sameShape_emitKindWord ctx term v
    | exact sameShape_emitMeasureWord ctx term v
    | rfl

/-- The same refusal, or as many fragments, each of the same shape. -/
def SameShapes (x y : Except QueryError (List Sql)) : Prop :=
  x.map (List.map shape) = y.map (List.map shape)

theorem SameShapes.nil : SameShapes (.ok []) (.ok []) := rfl

theorem SameShape.cons {x y : Except QueryError Sql} {xs ys : Except QueryError (List Sql)}
    (h : SameShape x y) (hs : SameShapes xs ys) :
    SameShapes (do return (← x) :: (← xs)) (do return (← y) :: (← ys)) := by
  cases x with
  | error err =>
    cases y with
    | error err' => exact congrArg Except.error (Except.error.inj h)
    | ok t => cases h
  | ok s =>
    cases y with
    | error err' => cases h
    | ok t =>
      cases xs with
      | error err =>
        cases ys with
        | error err' => exact congrArg Except.error (Except.error.inj hs)
        | ok ts => cases hs
      | ok ss =>
        cases ys with
        | error err' => cases hs
        | ok ts =>
          have hst : shape s = shape t := Except.ok.inj h
          have hsts : ss.map shape = ts.map shape := Except.ok.inj hs
          exact congrArg Except.ok (by rw [List.map_cons, List.map_cons, hst, hsts])

/-- Fragments of the same shapes, joined and put in parentheses. -/
theorem SameShapes.paren {xs ys : Except QueryError (List Sql)} (h : SameShapes xs ys)
    (sep : Sql) :
    SameShape (do return paren (joined sep (← xs))) (do return paren (joined sep (← ys))) := by
  cases xs with
  | error err =>
    cases ys with
    | error err' => exact congrArg Except.error (Except.error.inj h)
    | ok ts => cases h
  | ok ss =>
    cases ys with
    | error err' => cases h
    | ok ts =>
      have hsts : ss.map shape = ts.map shape := Except.ok.inj h
      exact .ok (by simp [SqlText.paren, shape_joined, hsts])

theorem sameShapes_emitValues (vs : List Value) :
    SameShapes (emitValues ctx term vs) (emitValues ctx term.erase (vs.map Value.erase)) := by
  induction vs with
  | nil => exact SameShapes.nil
  | cons v vs ih => exact (sameShape_emitOne ctx term v).cons ih

theorem sameShape_emitField : SameShape (emitField ctx term) (emitField ctx term.erase) :=
  (sameShapes_emitValues ctx term term.values).paren (push " OR ")

end emitters

mutual
theorem sameShape_emitExpr (ctx : ListCtx) : ∀ e : Expr,
    SameShape (emitExpr ctx e) (emitExpr ctx e.erase)
  | .and parts => by
    rw [Expr.erase, emitExpr, emitExpr]
    exact (sameShapes_emitParts ctx parts).paren (push " AND ")
  | .or parts => by
    rw [Expr.erase, emitExpr, emitExpr]
    exact (sameShapes_emitParts ctx parts).paren (push " OR ")
  | .not e => by
    rw [Expr.erase, emitExpr, emitExpr]
    apply (sameShape_emitExpr ctx e).bind
    intro s t h
    exact .ok (by simp [notTrue, h])
  | .field term => by
    rw [Expr.erase, emitExpr, emitExpr]
    exact sameShape_emitField ctx term
  | .text term => by
    rw [Expr.erase, emitExpr, emitExpr]
    exact .ok (shape_emitText ctx term)

theorem sameShapes_emitParts (ctx : ListCtx) : ∀ es : List Expr,
    SameShapes (emitParts ctx es) (emitParts ctx (Expr.eraseAll es))
  | [] => SameShapes.nil
  | e :: es => by
    rw [Expr.eraseAll, emitParts, emitParts]
    exact (sameShape_emitExpr ctx e).cons (sameShapes_emitParts ctx es)
end

mutual
/-- The words a tree uses are the code's own. -/
theorem uses_erase (word : String) : ∀ e : Expr, e.erase.uses word = e.uses word
  | .and parts => by rw [Expr.erase, Expr.uses, Expr.uses, usesAny_eraseAll word parts]
  | .or parts => by rw [Expr.erase, Expr.uses, Expr.uses, usesAny_eraseAll word parts]
  | .not e => by rw [Expr.erase, Expr.uses, Expr.uses, uses_erase word e]
  | .field _ => rfl
  | .text _ => rfl

theorem usesAny_eraseAll (word : String) : ∀ es : List Expr,
    Expr.usesAny word (Expr.eraseAll es) = Expr.usesAny word es
  | [] => rfl
  | e :: es => by
    rw [Expr.eraseAll, Expr.usesAny, Expr.usesAny, uses_erase word e, usesAny_eraseAll word es]
end

section query
variable (list : ListKind) (accountId : Int) (zone : Tz)

theorem usesWord_erase (expr : Option Expr) (word : String) :
    usesWord (expr.map Expr.erase) word = usesWord expr word := by
  cases expr with
  | none => rfl
  | some e => exact uses_erase word e

theorem sameShape_compileSql (expr : Option Expr) :
    SameShape (compileSql list expr accountId zone)
      (compileSql list (expr.map Expr.erase) accountId zone) := by
  have htrash : trashScope (expr.map Expr.erase) = trashScope expr := by
    unfold trashScope
    rw [usesWord_erase]
  have hdefaults : emitDefaults list (expr.map Expr.erase) = emitDefaults list expr := by
    unfold emitDefaults
    rw [usesWord_erase, usesWord_erase, usesWord_erase]
  unfold compileSql
  rw [htrash, hdefaults]
  have hquery : SameShape (emitQuery ⟨list, accountId, zone, trashScope expr⟩ expr)
      (emitQuery ⟨list, accountId, zone, trashScope expr⟩ (expr.map Expr.erase)) := by
    cases expr with
    | none => rfl
    | some e =>
      apply (sameShape_emitExpr _ e).map
      intro s t h
      simp [h]
  apply hquery.bind
  intro s t h
  exact .ok (by simp [h])

/-- The text `compile` answers is the same for trees of one erasure. -/
theorem whereSql_erase {expr expr' : Option Expr}
    (h : expr.map Expr.erase = expr'.map Expr.erase) :
    (compile list expr accountId zone).map Filter.whereSql =
      (compile list expr' accountId zone).map Filter.whereSql := by
  have hshape : SameShape (compileSql list expr accountId zone)
      (compileSql list expr' accountId zone) :=
    (sameShape_compileSql list accountId zone expr).trans
      (h ▸ (sameShape_compileSql list accountId zone expr').symm)
  unfold compile
  cases hx : compileSql list expr accountId zone with
  | error err =>
    cases hy : compileSql list expr' accountId zone with
    | error err' =>
      rw [hx, hy] at hshape
      exact congrArg Except.error (Except.error.inj hshape)
    | ok out' =>
      rw [hx, hy] at hshape
      cases hshape
  | ok out =>
    cases hy : compileSql list expr' accountId zone with
    | error err' =>
      rw [hx, hy] at hshape
      cases hshape
    | ok out' =>
      rw [hx, hy] at hshape
      exact congrArg Except.ok (text_eq_of_shape (Except.ok.inj hshape))

end query

/-! Placeholders. -/

/-- The filter is what the writes `out` make, it has as many placeholders as parameters,
and each parameter is the value its placeholder was written for. -/
structure Filter.Aligned (f : Filter) (out : Sql) : Prop where
  whereSql_eq : f.whereSql = text out
  count_eq : f.whereSql.toList.count '?' = f.params.length
  placeholders_eq : placeholders out = f.params.map some

theorem Filter.aligned {f : Filter} {out : Sql} (hclean : Clean out)
    (hwhere : f.whereSql = text out) (hparams : f.params = SqlText.params out) :
    f.Aligned out where
  whereSql_eq := hwhere
  count_eq := by rw [hwhere, hparams, count_eq_length hclean]
  placeholders_eq := by rw [hparams, SqlText.placeholders_eq hclean]

theorem aligned_compile {list : ListKind} {expr : Option Expr} {accountId : Int} {zone : Tz}
    {f : Filter} (h : compile list expr accountId zone = .ok f) :
    ∃ out, compileSql list expr accountId zone = .ok out ∧ f.Aligned out ∧ Clean out ∧
      f.params = SqlText.params out := by
  obtain ⟨out, hout, h⟩ := Except.of_bind_eq_ok h
  cases h
  have hclean := (closedOk_compileSql list expr accountId zone out hout).clean
  exact ⟨out, hout, Filter.aligned hclean rfl rfl, hclean, rfl⟩

/-- What `andWhere` writes around a filter's own writes. -/
def andWhereSql (out : Sql) (fragment : String) (ps : List SqlParam) : Sql :=
  push "(" ++ out ++ push " AND " ++ fill fragment.toList ps ++ push ")"

/-- What `messagesOf` writes around them. -/
def messagesOfSql (accountId : Int) (out : Sql) : Sql :=
  push "(m.account_id = " ++ bindInt accountId ++
    push " AND m.duplicate_of IS NULL AND m.conversation_id IN (SELECT c.id FROM conversations c WHERE " ++
    out ++ push "))"

theorem aligned_andWhere {f : Filter} {out : Sql} {fragment : String} {ps : List SqlParam}
    (hwhere : f.whereSql = text out) (hparams : f.params = SqlText.params out)
    (hclean : Clean out) (hcount : fragment.toList.count '?' = ps.length) :
    (f.andWhere fragment ps).Aligned (andWhereSql out fragment ps) := by
  obtain ⟨hchars, hfill, hfillClean⟩ := fill_spec hcount
  have hopen : Clean (push "(") := (Moves.raw (.literal (b := 1) rfl)).clean (a := 0)
  have hclose : Clean (push ")") := (Moves.raw (.literal (b := 0) rfl)).clean (a := 1)
  apply Filter.aligned
  · exact (((hopen.append hclean).append closed_and.clean).append hfillClean).append hclose
  · have htext : (f.andWhere fragment ps).whereSql.toList =
        chars (andWhereSql out fragment ps) := by
      simp [Filter.andWhere, andWhereSql, push, hwhere, toList_text, hchars]
    rw [text, ← htext, String.ofList_toList]
  · simp [Filter.andWhere, andWhereSql, push, hparams, hfill]

/-- A literal cut at a placeholder. -/
theorem toList_cut {cs ds es : List Char} (h : cs = ds ++ '?' :: es) :
    (String.ofList cs).toList = (String.ofList ds).toList ++ '?' :: (String.ofList es).toList := by
  rw [String.toList_ofList, String.toList_ofList, String.toList_ofList, h]

/-- What a text with one placeholder writes before another fragment, and what it binds. -/
theorem text_around {whole before after : String}
    (hcut : whole.toList = before.toList ++ '?' :: after.toList) (n : Int) (out : Sql)
    (post : String) :
    whole ++ text out ++ post =
        text (push before ++ bindInt n ++ push after ++ out ++ push post) ∧
      SqlText.params (push before ++ bindInt n ++ push after ++ out ++ push post) =
        .int n :: SqlText.params out := by
  have htext : (whole ++ text out ++ post).toList =
      chars (push before ++ bindInt n ++ push after ++ out ++ push post) := by
    simp [push, bindInt, hcut, toList_text]
  refine ⟨?_, by simp [push, bindInt]⟩
  apply String.toList_inj.mp
  rw [htext, toList_text]

theorem aligned_messagesOf {f : Filter} {out : Sql} (accountId : Int)
    (hwhere : f.whereSql = text out) (hparams : f.params = SqlText.params out)
    (hclean : Clean out) : (messagesOf accountId f).Aligned (messagesOfSql accountId out) := by
  have hopen : Clean (push "(m.account_id = ") :=
    (Moves.raw (.literal (b := 1) rfl)).clean (a := 0)
  have hid : Clean (bindInt accountId) := (Moves.bound (SqlParam.int accountId) 0).clean
  have hinner : Clean (push
      " AND m.duplicate_of IS NULL AND m.conversation_id IN (SELECT c.id FROM conversations c WHERE ") :=
    (Moves.raw (.literal (b := 1) rfl)).clean (a := 0)
  have hclose : Clean (push "))") := (Moves.raw (.literal (b := 0) rfl)).clean (a := 2)
  have hcut : "(m.account_id = ? AND m.duplicate_of IS NULL AND m.conversation_id IN (SELECT c.id FROM conversations c WHERE ".toList =
      "(m.account_id = ".toList ++ '?' ::
        " AND m.duplicate_of IS NULL AND m.conversation_id IN (SELECT c.id FROM conversations c WHERE ".toList :=
    toList_cut rfl
  obtain ⟨htext, hbound⟩ := text_around hcut accountId out "))"
  apply Filter.aligned
  · exact (((hopen.append hid).append hinner).append hclean).append hclose
  · exact (congrArg (fun w => _ ++ w ++ "))") hwhere).trans htext
  · exact (congrArg (_ :: ·) hparams).trans hbound.symm

/-- Answers that refuse alike, or have the same SQL. -/
def SameSql (x y : Except QueryError Filter) : Prop :=
  x.map Filter.whereSql = y.map Filter.whereSql

/-- Texts read as trees of one erasure, or refused alike. -/
def SameErasure (x y : Except Failure (Option Expr)) : Prop :=
  x.map (Option.map Expr.erase) = y.map (Option.map Expr.erase)

theorem SameSql.map {x y : Except QueryError Filter} (h : SameSql x y) {f g : Filter → Filter}
    (hfg : ∀ a b, a.whereSql = b.whereSql → (f a).whereSql = (g b).whereSql) :
    SameSql (x.map f) (y.map g) := by
  cases x with
  | error err =>
    cases y with
    | error err' => exact h
    | ok b => cases h
  | ok a =>
    cases y with
    | error err' => cases h
    | ok b => exact congrArg Except.ok (hfg a b (Except.ok.inj h))

theorem refuse_whereSql {x y : Except QueryError Filter} (h : SameSql x y)
    {f g : Filter → Filter}
    (hfg : ∀ a b, a.whereSql = b.whereSql → (f a).whereSql = (g b).whereSql) :
    ((refuse x).map f).map Filter.whereSql = ((refuse y).map g).map Filter.whereSql := by
  cases x with
  | error err =>
    cases y with
    | error err' => exact congrArg (fun e => Except.error (Failure.refused e)) (Except.error.inj h)
    | ok b => cases h
  | ok a =>
    cases y with
    | error err' => cases h
    | ok b => exact congrArg Except.ok (hfg a b (Except.ok.inj h))

/-- The messages of the conversations two queries show are the same SQL where the queries
read as trees of one erasure. -/
theorem sameSql_messagesOfConversations {req req' : CompileRequest}
    (hzone : req.zone = req'.zone)
    (haccount : req.accountId = req'.accountId)
    (hparse : SameErasure (parseQuery .conversations req.query req.today)
      (parseQuery .conversations req'.query req'.today)) :
    (compileMessagesOfConversations req).map Filter.whereSql =
      (compileMessagesOfConversations req').map Filter.whereSql := by
  unfold compileMessagesOfConversations compileQuery
  simp only at hparse ⊢
  cases hx : parseQuery .conversations req.query req.today with
  | error err =>
    cases hy : parseQuery .conversations req'.query req'.today with
    | error err' =>
      rw [hx, hy] at hparse
      exact congrArg Except.error (Except.error.inj hparse)
    | ok expr' =>
      rw [hx, hy] at hparse
      cases hparse
  | ok expr =>
    cases hy : parseQuery .conversations req'.query req'.today with
    | error err' =>
      rw [hx, hy] at hparse
      cases hparse
    | ok expr' =>
      rw [hx, hy] at hparse
      have herase : expr.map Expr.erase = expr'.map Expr.erase := Except.ok.inj hparse
      have hsql := whereSql_erase .conversations req.accountId req.zone herase
      rw [← haccount, ← hzone]
      exact refuse_whereSql hsql (fun a b h => congrArg (fun w => _ ++ w ++ "))") h)

/-- **Typed text never reaches the SQL.** Trees that differ only in what was typed compile
to the same SQL or are refused alike, and every filter has a parameter for each placeholder,
the value it was written for. Both hold of a filter narrowed by `andWhere`, and of the
messages of the conversations a query shows. -/
theorem typed_text_never_reaches_sql (list : ListKind) (accountId : Int) (zone : Tz) :
    (∀ expr expr' : Option Expr, expr.map Expr.erase = expr'.map Expr.erase →
      SameSql (compile list expr accountId zone) (compile list expr' accountId zone) ∧
      ∀ fragment ps ps', SameSql
        ((compile list expr accountId zone).map (·.andWhere fragment ps))
        ((compile list expr' accountId zone).map (·.andWhere fragment ps'))) ∧
    (∀ expr f, compile list expr accountId zone = .ok f →
      ∃ out, compileSql list expr accountId zone = .ok out ∧ f.Aligned out ∧
        ∀ fragment ps, fragment.toList.count '?' = ps.length →
          (f.andWhere fragment ps).Aligned (andWhereSql out fragment ps)) ∧
    (∀ query query' today today',
      SameErasure (parseQuery .conversations query today)
        (parseQuery .conversations query' today') →
      (compileMessagesOfConversations ⟨list, query, accountId, today, zone⟩).map
          Filter.whereSql =
        (compileMessagesOfConversations ⟨list, query', accountId, today', zone⟩).map
          Filter.whereSql) ∧
    (∀ query today f,
      compileMessagesOfConversations ⟨list, query, accountId, today, zone⟩ = .ok f →
      ∃ expr out, parseQuery .conversations query today = .ok expr ∧
        compileSql .conversations expr accountId zone = .ok out ∧
        f.Aligned (messagesOfSql accountId out)) := by
  refine ⟨?_, ?_, ?_, ?_⟩
  · intro expr expr' h
    have hsql : SameSql (compile list expr accountId zone) (compile list expr' accountId zone) :=
      whereSql_erase list accountId zone h
    exact ⟨hsql, fun fragment ps ps' => hsql.map (fun a b hab => by simp only [Filter.andWhere, hab])⟩
  · intro expr f h
    obtain ⟨out, hout, haligned, hclean, hparams⟩ := aligned_compile h
    exact ⟨out, hout, haligned,
      fun fragment ps hcount => aligned_andWhere haligned.whereSql_eq hparams hclean hcount⟩
  · intro query query' today today' h
    exact sameSql_messagesOfConversations rfl rfl h
  · intro query today f h
    obtain ⟨conversations, hcompile, h⟩ := Except.of_bind_eq_ok h
    obtain ⟨expr, hparse, hcompile⟩ := Except.of_bind_eq_ok hcompile
    cases h
    cases hf : compile .conversations expr accountId zone with
    | error err =>
      simp only [hf, refuse] at hcompile
      cases hcompile
    | ok g =>
      simp only [hf, refuse] at hcompile
      cases hcompile
      obtain ⟨out, hout, haligned, hclean, hparams⟩ := aligned_compile hf
      exact ⟨expr, out, hparse, hout,
        aligned_messagesOf accountId haligned.whereSql_eq hparams hclean⟩

/-- `o'brien -"'; --"`. -/
def quoteTyped : Expr := .and [.text (.term "o'brien" false), .not (.text (.phrase "'; --"))]

/-- `why? -"?"`. -/
def markTyped : Expr := .and [.text (.term "why?" false), .not (.text (.phrase "?"))]

/-- A quote and a question mark stay in the parameters. -/
theorem typed_text_never_reaches_sql_marks : ∃ f f',
    compile .contacts (some quoteTyped) 7 ⟨some, id⟩ = .ok f ∧
      compile .contacts (some markTyped) 7 ⟨some, id⟩ = .ok f' ∧ f.whereSql = f'.whereSql ∧
      f.params = [.int 7, .text "%o'brien%", .text "%o'brien%", .text "%o'brien%",
        .text "%'; --%", .text "%'; --%", .text "%'; --%"] ∧
      f'.params = [.int 7, .text "%why?%", .text "%why?%", .text "%why?%",
        .text "%?%", .text "%?%", .text "%?%"] := by
  have hsame : SameSql (compile .contacts (some quoteTyped) 7 ⟨some, id⟩)
      (compile .contacts (some markTyped) 7 ⟨some, id⟩) :=
    ((typed_text_never_reaches_sql .contacts 7 ⟨some, id⟩).1 (some quoteTyped) (some markTyped)
      rfl).1
  have hquote : ((compile .contacts (some quoteTyped) 7 ⟨some, id⟩).map Filter.params).toOption =
      some [.int 7, .text "%o'brien%", .text "%o'brien%", .text "%o'brien%",
        .text "%'; --%", .text "%'; --%", .text "%'; --%"] := by decide +kernel
  have hmark : ((compile .contacts (some markTyped) 7 ⟨some, id⟩).map Filter.params).toOption =
      some [.int 7, .text "%why?%", .text "%why?%", .text "%why?%",
        .text "%?%", .text "%?%", .text "%?%"] := by decide +kernel
  cases hf : compile .contacts (some quoteTyped) 7 ⟨some, id⟩ with
  | error err =>
    rw [hf] at hquote
    cases hquote
  | ok f =>
    cases hf' : compile .contacts (some markTyped) 7 ⟨some, id⟩ with
    | error err =>
      rw [hf'] at hmark
      cases hmark
    | ok f' =>
      rw [hf] at hquote hsame
      rw [hf'] at hmark hsame
      exact ⟨f, f', rfl, rfl, Except.ok.inj hsame, Option.some.inj hquote, Option.some.inj hmark⟩

end MessageCrate

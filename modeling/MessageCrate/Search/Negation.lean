import MessageCrate.Lib.SqlReader
import MessageCrate.Search.Built
import MessageCrate.Search.Closed

/- `q` and `-q` split the list.

   A valuation gives every atom of the SQL its truth value on a row, NULL included.
   `Expr.Matches` is what a tree means of the row in two values: a leaf matches when its
   SQL is TRUE, `and` when every part does, `or` when some part does, `not` when the part
   does not.

   1. `holds_emitExpr`: the SQL of a built tree is TRUE exactly when the tree matches.
      Every operand of `AND` and `OR` is guarded, so no part's own joiner is read as one
      of the level, and `IS NOT TRUE` makes a NULL part no match.
   2. `holds_compileSql`: the whole text is TRUE when the account scope, each default and
      the tree are.
   3. `negation_splits_the_list`: the defaults of `q` and `-q` are the same, so one of the
      two, and only one, matches a row that passes them. -/
namespace MessageCrate
open SqlText

set_option maxRecDepth 10000

/-- The truth value of every atom on a row. -/
abbrev Valuation := List (SqlText.Tree SqlParam) → Option Bool

/-- The fragment's SQL is TRUE. -/
def IsTrue (v : Valuation) (s : Sql) : Prop := Holds v (text s) (params s)

section denotation
variable (ctx : ListCtx) (v : Valuation)

mutual
/-- Whether a tree matches, in two values. -/
def Expr.Matches : Expr → Prop
  | .and parts => matchesAll parts
  | .or parts => matchesSome parts
  | .not e => ¬ e.Matches
  | .field t => ∃ s, emitField ctx t = .ok s ∧ IsTrue v s
  | .text t => IsTrue v (emitText ctx t)

def Expr.matchesAll : List Expr → Prop
  | [] => True
  | e :: es => e.Matches ∧ matchesAll es

def Expr.matchesSome : List Expr → Prop
  | [] => False
  | e :: es => e.Matches ∨ matchesSome es
end

end denotation

section trees
variable {ctx : ListCtx} {v : Valuation} {s : Sql} {ss : List Sql}

theorem isTrue_iff (h : Closed s) : IsTrue v s ↔ eval v (trees s) = some true := holds_iff h

/-- Guarded fragments joined by `AND` in parentheses. -/
theorem isTrue_paren_and (h : ∀ s ∈ ss, Guarded s) (hne : ss ≠ []) :
    IsTrue v (paren (joined (push " AND ") ss)) ↔ ∀ s ∈ ss, IsTrue v s := by
  have hclosed : ∀ s ∈ ss, Closed s := fun s hs => (h s hs).closed
  have hjoined : Closed (joined (push " AND ") ss) := Closed.joined closed_and hclosed
  have hoperand : ∀ ts ∈ ss.map trees, Operand ts := by
    intro ts hts
    obtain ⟨s, hs, rfl⟩ := List.mem_map.mp hts
    exact (h s hs).operand
  have htrees : trees (joined (push " AND ") ss) = joined [andTree] (ss.map trees) :=
    separates_and.trees_joined hclosed
  rw [isTrue_iff hjoined.paren, trees_paren hjoined, eval_group, htrees,
    eval_and hoperand (by simpa using hne), all3_eq_true]
  simp only [List.map_map, List.forall_mem_map, Function.comp_apply]
  exact forall₂_congr (fun s hs => (isTrue_iff (hclosed s hs)).symm)

/-- Guarded fragments joined by `OR` in parentheses. -/
theorem isTrue_paren_or (h : ∀ s ∈ ss, Guarded s) (hne : ss ≠ []) :
    IsTrue v (paren (joined (push " OR ") ss)) ↔ ∃ s ∈ ss, IsTrue v s := by
  have hclosed : ∀ s ∈ ss, Closed s := fun s hs => (h s hs).closed
  have hjoined : Closed (joined (push " OR ") ss) := Closed.joined closed_or hclosed
  have hoperand : ∀ ts ∈ ss.map trees, Operand ts := by
    intro ts hts
    obtain ⟨s, hs, rfl⟩ := List.mem_map.mp hts
    exact (h s hs).operand
  have htrees : trees (joined (push " OR ") ss) = joined [orTree] (ss.map trees) :=
    separates_or.trees_joined hclosed
  rw [isTrue_iff hjoined.paren, trees_paren hjoined, eval_group, htrees,
    eval_or hoperand (by simpa using hne), any3_eq_true]
  simp only [List.map_map, List.mem_map, Function.comp_apply, exists_exists_and_eq_and]
  exact exists_congr (fun s => and_congr_right (fun hs => (isTrue_iff (hclosed s hs)).symm))

/-- `IS NOT TRUE` of a fragment that is FALSE or NULL. -/
theorem isTrue_notTrue (h : Closed s) : IsTrue v (notTrue s) ↔ ¬ IsTrue v s := by
  rw [isTrue_iff h.notTrue, trees_notTrue h, eval_isNotTrue, isNotTrue_eq_true, isTrue_iff h]

end trees

section leaves
variable (ctx : ListCtx)

/-- A field is written, and its SQL is TRUE when that of one of its values is. -/
theorem isTrue_emitField {t : FieldTerm} (h : t.Built) :
    ∃ s, emitField ctx t = .ok s ∧ ∀ v, IsTrue v s ↔
      ∃ parts, emitValues ctx t t.values = .ok parts ∧ ∃ part ∈ parts, IsTrue v part := by
  obtain ⟨parts, hparts, hlength⟩ := writes_emitValues ctx t h.mem h.takes
  have hne : parts ≠ [] := by
    rintro rfl
    exact h.ne_nil (List.eq_nil_of_length_eq_zero hlength.symm)
  refine ⟨paren (joined (push " OR ") parts), by rw [emitField, hparts]; rfl, fun v => ?_⟩
  rw [isTrue_paren_or (guarded_emitValues ctx t hparts) hne]
  constructor
  · intro hpart
    exact ⟨parts, hparts, hpart⟩
  · rintro ⟨parts', hparts', hpart⟩
    cases hparts.symm.trans hparts'
    exact hpart

end leaves

mutual
/-- **The SQL of a built tree is TRUE exactly when the tree matches.** -/
theorem holds_emitExpr (ctx : ListCtx) : ∀ {e : Expr}, e.Built →
    ∃ s, emitExpr ctx e = .ok s ∧ ∀ v, IsTrue v s ↔ e.Matches ctx v
  | .and parts, h => by
    obtain ⟨ss, hss, hne, hall, -⟩ := holds_emitParts ctx h.2
    refine ⟨paren (joined (push " AND ") ss), by rw [emitExpr, hss]; rfl, fun v => ?_⟩
    rw [isTrue_paren_and (guarded_emitParts ctx parts ss hss) (hne h.1), hall v, Expr.Matches]
  | .or parts, h => by
    obtain ⟨ss, hss, hne, -, hsome⟩ := holds_emitParts ctx h.2
    refine ⟨paren (joined (push " OR ") ss), by rw [emitExpr, hss]; rfl, fun v => ?_⟩
    rw [isTrue_paren_or (guarded_emitParts ctx parts ss hss) (hne h.1), hsome v, Expr.Matches]
  | .not e, h => by
    have hbuilt : e.Built := h
    obtain ⟨s, hs, hmatches⟩ := holds_emitExpr ctx hbuilt
    refine ⟨notTrue s, by rw [emitExpr, hs]; rfl, fun v => ?_⟩
    rw [isTrue_notTrue (guardedOk_emitExpr ctx e s hs).closed, hmatches v, Expr.Matches]
  | .field t, h => by
    obtain ⟨s, hs, -⟩ := isTrue_emitField ctx h
    refine ⟨s, by rw [emitExpr, hs], fun v => ?_⟩
    simp [Expr.Matches, hs]
  | .text t, _ => ⟨emitText ctx t, by rw [emitExpr], fun v => by rw [Expr.Matches]⟩

theorem holds_emitParts (ctx : ListCtx) : ∀ {es : List Expr}, Expr.builtAll es →
    ∃ ss, emitParts ctx es = .ok ss ∧ (es ≠ [] → ss ≠ []) ∧
      (∀ v, (∀ s ∈ ss, IsTrue v s) ↔ Expr.matchesAll ctx v es) ∧
      (∀ v, (∃ s ∈ ss, IsTrue v s) ↔ Expr.matchesSome ctx v es)
  | [], _ => ⟨[], rfl, fun h => absurd rfl h, fun v => by simp [Expr.matchesAll],
      fun v => by simp [Expr.matchesSome]⟩
  | e :: es, h => by
    obtain ⟨s, hs, hmatches⟩ := holds_emitExpr ctx h.1
    obtain ⟨ss, hss, -, hall, hsome⟩ := holds_emitParts ctx h.2
    refine ⟨s :: ss, by rw [emitParts, hs, hss]; rfl, fun _ => List.cons_ne_nil _ _,
      fun v => ?_, fun v => ?_⟩
    · rw [List.forall_mem_cons, hmatches v, hall v, Expr.matchesAll]
    · rw [List.exists_mem_cons_iff, hmatches v, hsome v, Expr.matchesSome]
end

/-! The whole query. -/

/-- The account scope. -/
def scopeSql (ctx : ListCtx) : Sql := push ctx.accountCol ++ push " = " ++ bindInt ctx.accountId

/-- The defaults chosen for a query, one by one. -/
def defaultsSql (list : ListKind) (expr : Option Expr) : List Sql :=
  let trash (s : Sql) := if !usesWord expr "trashed" then [s] else []
  -- A query about one source or one run may be about duplicates alone.
  let duplicates (s : Sql) :=
    if !usesWord expr "source" && !usesWord expr "import" then [s] else []
  match list with
  | .contacts => trash (push notTrashedContactSql)
  | .conversations =>
    trash (push notTrashedConversationSql) ++
      duplicates (push "EXISTS (SELECT 1 FROM messages m0 WHERE m0.conversation_id = c.id AND m0.duplicate_of IS NULL)")
  | .messages =>
    duplicates (push "m.duplicate_of IS NULL") ++
      trash (push "EXISTS (SELECT 1 FROM conversations c WHERE c.id = m.conversation_id AND " ++
        push notTrashedConversationSql ++ push ")")

theorem guarded_scopeSql (ctx : ListCtx) : Guarded (scopeSql ctx) := by
  have hcol : Guards (push ctx.accountCol ++ push " = ") 0 0 := by
    unfold ListCtx.accountCol
    split
    · rfl
    · rfl
    · rfl
  exact (hcol.append (Guards.bound (SqlParam.int ctx.accountId) 0)).guarded

theorem mem_ite_singleton {c : Prop} [Decidable c] {s t : Sql} (h : s ∈ if c then [t] else []) :
    s = t := by
  split at h
  · exact List.mem_singleton.mp h
  · cases h

theorem guarded_defaultsSql {list : ListKind} {expr : Option Expr} {s : Sql}
    (h : s ∈ defaultsSql list expr) : Guarded s := by
  have hcontact := guarded_push guards_notTrashedContactSql.guarded
  have hconversation := guarded_push guards_notTrashedConversationSql.guarded
  unfold defaultsSql at h
  cases list with
  | contacts =>
    rw [mem_ite_singleton h]
    exact hcontact
  | conversations =>
    obtain h | h := List.mem_append.mp h
    · rw [mem_ite_singleton h]
      exact hconversation
    · rw [mem_ite_singleton h]
      exact guarded_push (GuardsText.literal rfl).guarded
  | messages =>
    obtain h | h := List.mem_append.mp h
    · rw [mem_ite_singleton h]
      exact guarded_push (.literal rfl rfl)
    · rw [mem_ite_singleton h]
      exact Guarded.wrap (k := 0) (.literal rfl) hconversation.closed (.literal rfl)

/-- The row passes the account scope and every default. -/
def Passes (list : ListKind) (expr : Option Expr) (accountId : Int) (zone : Tz) (v : Valuation) :
    Prop :=
  IsTrue v (scopeSql ⟨list, accountId, zone, trashScope expr⟩) ∧
    ∀ s ∈ defaultsSql list expr, IsTrue v s

/-- One literal is read as its parts are. -/
theorem syms_split {cs ds es : List Char} (h : cs = ds ++ es) :
    syms (push (String.ofList cs)) =
      syms (push (String.ofList ds) ++ push (String.ofList es)) := by
  simp only [syms, push, List.flatMap_append, List.flatMap_cons, List.flatMap_nil, Write.syms,
    String.toList_ofList, h, List.map_append, List.append_nil]

/-- `emitDefaults` writes each default behind an `AND`. -/
theorem syms_emitDefaults (list : ListKind) (expr : Option Expr) :
    syms (emitDefaults list expr) =
      syms ((defaultsSql list expr).flatMap (push " AND " ++ ·)) := by
  have hunique : syms (push " AND EXISTS (SELECT 1 FROM messages m0 WHERE m0.conversation_id = c.id AND m0.duplicate_of IS NULL)") =
      syms (push " AND " ++ push "EXISTS (SELECT 1 FROM messages m0 WHERE m0.conversation_id = c.id AND m0.duplicate_of IS NULL)") :=
    syms_split rfl
  have hshown : syms (push " AND m.duplicate_of IS NULL") =
      syms (push " AND " ++ push "m.duplicate_of IS NULL") := syms_split rfl
  have hexists : syms (push " AND EXISTS (SELECT 1 FROM conversations c WHERE c.id = m.conversation_id AND ") =
      syms (push " AND " ++ push "EXISTS (SELECT 1 FROM conversations c WHERE c.id = m.conversation_id AND ") :=
    syms_split rfl
  have hone {c : Prop} [Decidable c] {s t : Sql} (h : syms s = syms (push " AND " ++ t)) :
      syms (if c then s else []) =
        syms ((if c then [t] else []).flatMap (push " AND " ++ ·)) := by
    split
    · rw [h, List.flatMap_cons, List.flatMap_nil, List.append_nil]
    · rfl
  unfold emitDefaults defaultsSql
  cases list with
  | contacts => exact hone rfl
  | conversations =>
    simp only [List.flatMap_append, syms_append]
    rw [hone rfl, hone hunique]
  | messages =>
    simp only [List.flatMap_append, syms_append]
    rw [hone hshown, hone (t := push "EXISTS (SELECT 1 FROM conversations c WHERE c.id = m.conversation_id AND " ++
        push notTrashedConversationSql ++ push ")")]
    rw [syms_append, syms_append, hexists]
    simp only [syms_append, List.append_assoc]

/-- **The whole text is TRUE when its scope, its defaults and its tree are.** -/
theorem holds_compileSql (list : ListKind) (accountId : Int) (zone : Tz) {e : Expr}
    (h : e.Built) :
    ∃ f, compile list (some e) accountId zone = .ok f ∧ ∀ v, Holds v f.whereSql f.params ↔
      Passes list (some e) accountId zone v ∧
        e.Matches ⟨list, accountId, zone, trashScope (some e)⟩ v := by
  let ctx : ListCtx := ⟨list, accountId, zone, trashScope (some e)⟩
  obtain ⟨s, hs, hmatches⟩ := holds_emitExpr ctx h
  let out : Sql := push "(" ++ push ctx.accountCol ++ push " = " ++ bindInt ctx.accountId ++
    emitDefaults list (some e) ++ (push " AND " ++ s) ++ push ")"
  have hout : compileSql list (some e) accountId zone = .ok out := by
    have hquery : emitQuery ctx (some e) = .ok (push " AND " ++ s) := by
      rw [emitQuery, hs]
      rfl
    unfold compileSql
    simp only
    rw [hquery]
    rfl
  refine ⟨⟨text out, params out, _⟩, by unfold compile; rw [hout]; rfl, fun v => ?_⟩
  have hclosed : Closed out := closedOk_compileSql list (some e) accountId zone out hout
  let parts : List Sql := scopeSql ctx :: (defaultsSql list (some e) ++ [s])
  have hguarded : ∀ part ∈ parts, Guarded part := by
    intro part hpart
    obtain rfl | hpart := List.mem_cons.mp hpart
    · exact guarded_scopeSql ctx
    obtain hpart | hpart := List.mem_append.mp hpart
    · exact guarded_defaultsSql hpart
    · rw [List.mem_singleton.mp hpart]
      exact guardedOk_emitExpr ctx e s hs
  have hparts : Closed (paren (joined (push " AND ") parts)) :=
    (Closed.joined closed_and (fun part hpart => (hguarded part hpart).closed)).paren
  have hsyms : syms out = syms (paren (joined (push " AND ") parts)) := by
    simp only [out, parts, paren, joined_cons, List.flatMap_append, List.flatMap_cons,
      List.flatMap_nil, syms_append, syms_emitDefaults, scopeSql, List.append_assoc,
      List.append_nil]
    rfl
  have htrees : trees out = trees (paren (joined (push " AND ") parts)) := by
    rw [trees, trees, hsyms]
  have hall : IsTrue v out ↔ ∀ part ∈ parts, IsTrue v part := by
    rw [isTrue_iff hclosed, htrees, ← isTrue_iff hparts,
      isTrue_paren_and hguarded (List.cons_ne_nil _ _)]
  have hwhere : Holds v (text out) (params out) ↔ ∀ part ∈ parts, IsTrue v part := hall
  rw [hwhere, List.forall_mem_cons, List.forall_mem_append, List.forall_mem_singleton, hmatches v,
    Passes, and_assoc]

/-! The defaults and the trash look at the words of the query alone. -/

theorem usesWord_not (e : Expr) (word : String) :
    usesWord (some (.not e)) word = usesWord (some e) word := by
  rw [usesWord, usesWord, Expr.uses]

theorem trashScope_not (e : Expr) : trashScope (some (.not e)) = trashScope (some e) := by
  rw [trashScope, trashScope, usesWord_not]

theorem emitDefaults_not (list : ListKind) (e : Expr) :
    emitDefaults list (some (.not e)) = emitDefaults list (some e) := by
  simp only [emitDefaults, usesWord_not]

theorem passes_not (list : ListKind) (e : Expr) (accountId : Int) (zone : Tz) (v : Valuation) :
    Passes list (some (.not e)) accountId zone v ↔ Passes list (some e) accountId zone v := by
  simp only [Passes, defaultsSql, trashScope_not, usesWord_not]

/-- **`q` and `-q` split the list.** A query the parser builds compiles, and its SQL is TRUE
of a row exactly when the row passes the scope and the defaults and the query matches it.
`-q` has the same defaults, and of the rows that pass them each is matched by one of the
two and not by the other. -/
theorem negation_splits_the_list (list : ListKind) (accountId : Int) (zone : Tz)
    (tokens : List Token) (today : NaiveDate) (e : Expr)
    (hparse : parse list tokens today = .ok (some e)) :
    ∃ f g, compile list (some e) accountId zone = .ok f ∧
      compile list (some (.not e)) accountId zone = .ok g ∧
      emitDefaults list (some (.not e)) = emitDefaults list (some e) ∧
      ∀ v, (Holds v f.whereSql f.params ↔ Passes list (some e) accountId zone v ∧
          e.Matches ⟨list, accountId, zone, trashScope (some e)⟩ v) ∧
        (Passes list (some e) accountId zone v →
          (Holds v g.whereSql g.params ↔ ¬ Holds v f.whereSql f.params)) := by
  have hbuilt := built_of_parse hparse
  obtain ⟨f, hf, hfholds⟩ := holds_compileSql list accountId zone hbuilt
  have hnot : (Expr.not e).Built := hbuilt
  obtain ⟨g, hg, hgholds⟩ := holds_compileSql list accountId zone hnot
  refine ⟨f, g, hf, hg, emitDefaults_not list e, fun v => ⟨hfholds v, fun hpass => ?_⟩⟩
  rw [hgholds v, hfholds v, trashScope_not, Expr.Matches]
  constructor
  · rintro ⟨-, hmatches⟩ ⟨-, hmatches'⟩
    exact hmatches hmatches'
  · intro hnone
    exact ⟨(passes_not list e accountId zone v).mpr hpass, fun hmatches => hnone ⟨hpass, hmatches⟩⟩

/-- The tokens of `jane or -(bob ann)`. -/
def groupTokens : List Token :=
  [⟨.word "jane" false, (0, 4), false⟩, ⟨.or, (5, 7), false⟩, ⟨.lparen, (9, 10), true⟩,
    ⟨.word "bob" false, (10, 13), false⟩, ⟨.word "ann" false, (14, 17), false⟩,
    ⟨.rparen, (17, 18), false⟩]

def groupExpr : Expr :=
  .or [.text (.term "jane" false),
    .not (.and [.text (.term "bob" false), .text (.term "ann" false)])]

theorem derives_group : Derives .contacts ⟨0, by decide⟩ groupTokens groupExpr := by
  have hword : ∀ text span, Unary .contacts ⟨0, by decide⟩ [⟨.word text false, span, false⟩]
      (.text (.term text false)) 0 := fun _ _ => .plain rfl (.term rfl)
  have hgroup : Primary .contacts ⟨0, by decide⟩ (⟨.lparen, (9, 10), true⟩ ::
      (([⟨.word "bob" false, (10, 13), false⟩] ++ [⟨.word "ann" false, (14, 17), false⟩]) ++
        [⟨.rparen, (17, 18), false⟩])) _ _ :=
    .group rfl (.last (.space (hword "bob" _) (.last (hword "ann" _)))) rfl
  exact ⟨_, _, .or (.last (hword "jane" (0, 4))) rfl (.last (.last (.minus rfl hgroup))), rfl,
    by decide, by decide, by decide⟩

/-- An `or` with a negated group, on Contacts. -/
theorem negation_splits_negated_group : ∃ f g,
    compile .contacts (some groupExpr) 7 ⟨some, id⟩ = .ok f ∧
      compile .contacts (some (.not groupExpr)) 7 ⟨some, id⟩ = .ok g ∧
      ∀ v, Passes .contacts (some groupExpr) 7 ⟨some, id⟩ v →
        (Holds v g.whereSql g.params ↔ ¬ Holds v f.whereSql f.params) := by
  obtain ⟨f, g, hf, hg, -, hsplit⟩ := negation_splits_the_list .contacts 7 ⟨some, id⟩
    groupTokens ⟨0, by decide⟩ groupExpr (parse_of_derives derives_group)
  exact ⟨f, g, hf, hg, fun v => (hsplit v).2⟩

end MessageCrate

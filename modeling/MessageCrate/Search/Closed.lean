import MessageCrate.Search.Emit

/- Every emitter writes a guarded fragment: parentheses and quotes close, no raw text holds
   a `?`, and no `AND` or `OR` stands outside the fragment's own parentheses. What only
   stands inside others is closed. One lemma an emitter, up to `guardedOk_emitExpr` and
   `closedOk_compileSql`, for every tree, whether or not the parser can build it. -/
namespace MessageCrate
open SqlText

set_option maxRecDepth 10000

/-- If it writes anything, what it writes is closed. -/
def ClosedOk (x : Except QueryError Sql) : Prop := ∀ s, x = .ok s → Closed s

section combinators
variable {x : Except QueryError Sql}

theorem closedOk_ok {s : Sql} (h : Closed s) : ClosedOk (.ok s) := by
  intro t ht
  cases ht
  exact h

theorem closedOk_error (err : QueryError) : ClosedOk (.error err) := by
  intro t ht
  cases ht

theorem ClosedOk.map {f : Sql → Sql} (hx : ClosedOk x) (hf : ∀ s, Closed s → Closed (f s)) :
    ClosedOk (x.map f) := by
  cases x with
  | error err => exact closedOk_error err
  | ok s => exact closedOk_ok (hf s (hx s rfl))

theorem ClosedOk.bind {f : Sql → Except QueryError Sql} (hx : ClosedOk x)
    (hf : ∀ s, Closed s → ClosedOk (f s)) : ClosedOk (x >>= f) := by
  cases x with
  | error err => exact closedOk_error err
  | ok s => exact hf s (hx s rfl)

/-- If it writes anything, what it writes is guarded. -/
def GuardedOk (x : Except QueryError Sql) : Prop := ∀ s, x = .ok s → Guarded s

theorem GuardedOk.closed (hx : GuardedOk x) : ClosedOk x := fun s hs => (hx s hs).closed

theorem guardedOk_ok {s : Sql} (h : Guarded s) : GuardedOk (.ok s) := by
  intro t ht
  cases ht
  exact h

theorem guardedOk_error (err : QueryError) : GuardedOk (.error err) := by
  intro t ht
  cases ht

/-- A wrapper of a closed fragment is guarded. -/
theorem ClosedOk.map_guarded {f : Sql → Sql} (hx : ClosedOk x)
    (hf : ∀ s, Closed s → Guarded (f s)) : GuardedOk (x.map f) := by
  cases x with
  | error err => exact guardedOk_error err
  | ok s => exact guardedOk_ok (hf s (hx s rfl))

theorem ClosedOk.bind_guarded {f : Sql → Except QueryError Sql} (hx : ClosedOk x)
    (hf : ∀ s, Closed s → GuardedOk (f s)) : GuardedOk (x >>= f) := by
  cases x with
  | error err => exact guardedOk_error err
  | ok s => exact hf s (hx s rfl)

theorem closed_push {s : String} (h : Shifts s 0 0) : Closed (push s) := Moves.raw h

theorem guarded_push {s : String} (h : GuardedText s) : Guarded (push s) := Guards.raw_guarded h

/-- A text that ends no word, and a bound value. -/
theorem guarded_bound {s : String} (h : GuardsText s 0 0) (p : SqlParam) :
    Guarded (push s ++ [.bound p]) := ((Guards.raw h).append (Guards.bound p 0)).guarded

end combinators

/-! Text. -/

section text
variable {column : String}

theorem guarded_like (hcolumn : Shifts column 0 0) (pattern : String) :
    Guarded (like column pattern) := by
  have hopen : Guards (push ("lower(" ++ column ++ ") LIKE lower(")) 0 1 :=
    .raw (((GuardsText.literal (b := 1) rfl).append hcolumn.guards).append (.literal rfl))
  have hclose : Guards (push ") ESCAPE '\\'") 1 0 := .raw (.literal rfl)
  exact ((hopen.append (.bound (.text pattern) 1)).append hclose).guarded

theorem guarded_likeContains (hcolumn : Shifts column 0 0) (text : String) (pre : Bool) :
    Guarded (likeContains column text pre) := by
  have hor : Closed (push " OR ") := closed_push (.literal rfl)
  unfold likeContains
  cases pre with
  | true =>
    have hlike := ((guarded_like hcolumn (likeEscape text ++ "%")).closed.append hor).append
      (guarded_like hcolumn ("% " ++ likeEscape text ++ "%")).closed
    have hparen := Guarded.paren hlike
    simpa [paren, push, List.append_assoc] using hparen
  | false => exact guarded_like hcolumn _

theorem closed_likeContains (hcolumn : Shifts column 0 0) (text : String) (pre : Bool) :
    Closed (likeContains column text pre) := (guarded_likeContains hcolumn text pre).closed

theorem closed_freeTextMatch (hcolumn : Shifts column 0 0) (term : TextTerm) :
    Closed (freeTextMatch column term) := by
  cases term with
  | term text pre => exact closed_likeContains hcolumn text pre
  | phrase text => exact closed_likeContains hcolumn text false

theorem shifts_participantName : Shifts participantName 0 0 := .literal rfl

theorem shifts_participantsWithContact (trash : TrashScope) :
    Shifts (participantsWithContact trash) 0 0 :=
  (Shifts.literal (b := 0) rfl).append (shifts_contactClause trash (.literal rfl))

theorem closed_matchingIds (term : TextTerm) : Closed (matchingIds term) :=
  (closed_push (.literal rfl)).append (Moves.bound _ 0)

theorem guarded_emitText (ctx : ListCtx) (term : TextTerm) : Guarded (emitText ctx term) := by
  unfold emitText
  split
  · have hname : Closed (freeTextMatch "ct.preferred_name" term) :=
      closed_freeTextMatch (.literal rfl) term
    have hraw : Closed (freeTextMatch "h.raw" term) :=
      closed_freeTextMatch (.literal rfl) term
    have hnormalized : Closed (freeTextMatch "coalesce(h.normalized, '')" term) :=
      closed_freeTextMatch (.literal rfl) term
    exact ((((((Guards.raw (.literal (b := 1) rfl)).append (hname.inside 0)).append
      (.raw (.literal (b := 3) rfl))).append (hraw.inside 2)).append
      (.raw (.literal (b := 3) rfl))).append (hnormalized.inside 2)).append
      (.raw (.literal rfl)) |>.guarded
  · have htitle : Closed (freeTextMatch "coalesce(c.group_title, '')" term) :=
      closed_freeTextMatch (.literal rfl) term
    have hchat : Closed (freeTextMatch "hc.raw" term) :=
      closed_freeTextMatch (.literal rfl) term
    have hraw : Closed (freeTextMatch "coalesce(ph.raw, '')" term) :=
      closed_freeTextMatch (.literal rfl) term
    have hname := closed_freeTextMatch shifts_participantName term
    have hfrom := ((shifts_participantsWithContact ctx.trash).at_depth 1).guards
    have hjoin : GuardsText (") OR EXISTS (SELECT 1 FROM " ++ participantsWithContact ctx.trash ++
        " LEFT JOIN handles ph ON ph.id = p.handle_id WHERE p.conversation_id = c.id AND (") 2 3 :=
      ((GuardsText.literal (b := 2) rfl).append hfrom).append (.literal rfl)
    exact ((((((((Guards.raw (.literal (b := 1) rfl)).append (htitle.inside 0)).append
      (.raw (.literal (b := 2) rfl))).append (hchat.inside 1)).append (.raw hjoin)).append
      (hraw.inside 2)).append (.raw (.literal (b := 3) rfl))).append
      (hname.inside 2)).append (.raw (.literal rfl)) |>.guarded
  · have hfile : Closed (freeTextMatch "coalesce(a.original_name, '')" term) :=
      closed_freeTextMatch (.literal rfl) term
    exact ((((Guards.raw (.literal (b := 1) rfl)).append
      ((closed_matchingIds term).inside 0)).append
      (.raw (.literal (b := 1) rfl))).append (hfile.inside 0)).append (.raw (.literal rfl))
      |>.guarded

end text

/-! Text words. -/

section words
variable (ctx : ListCtx) (term : FieldTerm) (v : Value)

theorem guardedOk_textMatch {column : String} (hcolumn : Shifts column 0 0) :
    GuardedOk (textMatch column term v) := by
  have htrim : GuardsText ("NULLIF(trim(" ++ column) 0 2 :=
    (GuardsText.literal (b := 2) rfl).append (hcolumn.at_depth 1).guards
  unfold textMatch
  split
  · exact guardedOk_ok (guarded_likeContains hcolumn _ false)
  · exact guardedOk_ok (guarded_likeContains hcolumn _ true)
  · exact guardedOk_ok (guarded_push (htrim.append_word (b := 2) rfl rfl))
  · exact guardedOk_ok (guarded_push (htrim.append_word (b := 2) rfl rfl))
  · exact guardedOk_error _

theorem closedOk_textMatch {column : String} (hcolumn : Shifts column 0 0) :
    ClosedOk (textMatch column term v) := (guardedOk_textMatch term v hcolumn).closed

theorem guardedOk_identityMatch {start : String} (hstart : GuardsText start 0 2) :
    GuardedOk (identityMatch start term v) := by
  unfold identityMatch
  apply (closedOk_textMatch term v (.literal rfl)).bind_guarded
  intro raw hraw
  apply (closedOk_textMatch term v (.literal rfl)).bind_guarded
  intro normalized hnormalized
  exact guardedOk_ok (((((Guards.raw hstart).append (hraw.inside 1)).append
    (.raw (.literal (b := 2) rfl))).append (hnormalized.inside 1)).append
    (.raw (.literal rfl))).guarded

theorem guardedOk_emitContactIdentity : GuardedOk (emitContactIdentity term v) := by
  unfold emitContactIdentity
  split
  · exact guardedOk_ok (guarded_push (GuardsText.literal rfl).guarded)
  · exact guardedOk_ok (guarded_push (GuardsText.literal rfl).guarded)
  · exact guardedOk_identityMatch term _ (.literal rfl)
  · exact guardedOk_identityMatch term _ (.literal rfl)
  · exact guardedOk_error _

theorem closedOk_emitConversationIdentity : ClosedOk (emitConversationIdentity term v) := by
  unfold emitConversationIdentity
  split
  · exact closedOk_ok (closed_push (.literal rfl))
  · exact closedOk_ok (closed_push (.literal rfl))
  · exact (guardedOk_identityMatch term _ (.literal rfl)).closed
  · exact (guardedOk_identityMatch term _ (.literal rfl)).closed
  · exact closedOk_error _

theorem guardedOk_emitTextWord : GuardedOk (emitTextWord ctx term v) := by
  have hmessage (column : String) (h : Shifts column 0 0) :
      GuardedOk ((textMatch column term v).map ctx.message) :=
    (closedOk_textMatch term v h).map_guarded (fun _ hs => ctx.guarded_message hs)
  have hconversation (column : String) (h : Shifts column 0 0) :
      GuardedOk ((textMatch column term v).map ctx.conversation) :=
    (closedOk_textMatch term v h).map_guarded (fun _ hs => ctx.guarded_conversation hs)
  unfold emitTextWord
  split
  · exact hmessage _ (.literal rfl)
  · exact hmessage _ (.literal rfl)
  · exact hconversation _ (.literal rfl)
  · exact guardedOk_textMatch term v (.literal rfl)
  · apply (closedOk_textMatch term v shifts_participantName).bind_guarded
    intro name hname
    have hfrom := (shifts_participantsWithContact ctx.trash).at_depth 1
    have hstart : Shifts ("EXISTS (SELECT 1 FROM " ++ participantsWithContact ctx.trash ++
        " WHERE p.conversation_id = c.id AND ") 0 1 :=
      ((Shifts.literal (b := 1) rfl).append hfrom).append (.literal rfl)
    exact guardedOk_ok (ctx.guarded_conversation (hname.wrap hstart (.literal rfl)))
  · exact guardedOk_emitContactIdentity term v
  · exact (closedOk_emitConversationIdentity term v).map_guarded
      (fun _ hs => ctx.guarded_conversation hs)
  · apply (closedOk_textMatch term v (.literal rfl)).bind_guarded
    intro name hname
    exact guardedOk_ok (ctx.guarded_message (hname.wrap (k := 1) (.literal rfl) (.literal rfl)))
  · exact guardedOk_error _

/-! People and places. -/

theorem closed_personText {handleIdExpr : String} (h : Shifts handleIdExpr 0 0) (t : String)
    (pre : Bool) : Closed (personText ctx handleIdExpr t pre) := by
  have hraw : Closed (likeContains "hp.raw" t pre) := closed_likeContains (.literal rfl) t pre
  have hnormalized : Closed (likeContains "coalesce(hp.normalized, '')" t pre) :=
    closed_likeContains (.literal rfl) t pre
  have hname : Closed (likeContains "coalesce(ctp.preferred_name, '')" t pre) :=
    closed_likeContains (.literal rfl) t pre
  have hclause : Shifts (ctx.trash.contactClause "ctp") 1 1 :=
    (shifts_contactClause ctx.trash (.literal rfl)).at_depth 1
  have hor : Moves (push " OR ") 2 2 := .raw (.literal rfl)
  unfold personText
  exact ((((((Moves.raw (((((Shifts.literal (b := 1) rfl).append hclause).append
    (.literal (b := 1) rfl)).append (h.at_depth 1)).append (.literal (b := 2) rfl))).append
    (hraw.at_depth 2)).append hor).append (hnormalized.at_depth 2)).append hor).append
    (hname.at_depth 2)).append (.raw (.literal rfl))

theorem closedOk_personMatches {handleIdExpr : String} (h : Shifts handleIdExpr 0 0) :
    ClosedOk (personMatches ctx handleIdExpr term v) := by
  unfold personMatches
  split
  · have hstart : Shifts ("EXISTS (SELECT 1 FROM contact_handles chp WHERE chp.handle_id = " ++
        handleIdExpr ++ " AND chp.contact_id = ") 0 1 :=
      ((Shifts.literal (b := 1) rfl).append (h.at_depth 1)).append (.literal rfl)
    have hnot : Shifts (notTrashedContactId "chp.account_id" "chp.contact_id") 0 0 :=
      shifts_notTrashedContactId (.literal rfl) (.literal rfl)
    have htrashed : Closed (if ctx.trash = .leftOut then
        push " AND " ++ push (notTrashedContactId "chp.account_id" "chp.contact_id")
        else ([] : Sql)) := by
      split
      · exact (closed_push (.literal rfl)).append (closed_push hnot)
      · exact Moves.nil 0
    exact closedOk_ok ((((Moves.raw hstart).append (.bound _ 1)).append
      (htrashed.at_depth 1)).append (.raw (.literal rfl)))
  · exact closedOk_ok (closed_personText ctx h _ false)
  · exact closedOk_ok (closed_personText ctx h _ true)
  · exact closedOk_error _

theorem closedOk_participantMatches : ClosedOk (participantMatches term v) := by
  unfold participantMatches
  split
  · exact closedOk_ok (closed_push (.literal rfl))
  · exact closedOk_ok (closed_likeContains shifts_participantName _ false)
  · exact closedOk_ok (closed_likeContains shifts_participantName _ true)
  · exact closedOk_error _

theorem guardedOk_withPerson : GuardedOk (withPerson ctx term v) := by
  unfold withPerson
  apply (closedOk_personMatches ctx term v (.literal rfl)).bind_guarded
  intro chat hchat
  apply (closedOk_personMatches ctx term v (.literal rfl)).bind_guarded
  intro handle hhandle
  apply (closedOk_participantMatches term v).bind_guarded
  intro name hname
  have hfrom := (shifts_participantsWithContact ctx.trash).at_depth 2
  have hjoin : Shifts (" OR EXISTS (SELECT 1 FROM " ++ participantsWithContact ctx.trash ++
      " WHERE p.conversation_id = c.id AND (") 1 3 :=
    ((Shifts.literal (b := 2) rfl).append hfrom).append (.literal rfl)
  exact guardedOk_ok (ctx.guarded_conversation ((((((Moves.raw (.literal (b := 1) rfl)).append
    (hchat.at_depth 1)).append (.raw hjoin)).append (hhandle.at_depth 3)).append
    (.raw (.literal (b := 3) rfl))).append (hname.at_depth 3) |>.append (.raw (.literal rfl))))

/-- The names of a set are plain text. -/
structure NamedSet.Plain (set : NamedSet) : Prop where
  table : Shifts set.table 0 0
  members : Shifts set.members 0 0
  setCol : Shifts set.setCol 0 0
  memberCol : Shifts set.memberCol 0 0
  rowExpr : Shifts set.rowExpr 0 0
  accountExpr : Shifts set.accountExpr 0 0

theorem plain_contactGroups : contactGroups.Plain :=
  ⟨.literal rfl, .literal rfl, .literal rfl, .literal rfl, .literal rfl, .literal rfl⟩

theorem plain_messageTags : messageTags.Plain :=
  ⟨.literal rfl, .literal rfl, .literal rfl, .literal rfl, .literal rfl, .literal rfl⟩

theorem shifts_unknownContactSql : Shifts unknownContactSql 0 0 := .literal rfl

section sets
variable {set : NamedSet}

theorem NamedSet.Plain.membershipFrom (h : set.Plain) : Shifts set.membershipFrom 0 0 :=
  (((((((((((Shifts.literal (b := 0) rfl).append h.members).append (.literal (b := 0) rfl)).append
    h.table).append (.literal (b := 0) rfl)).append h.setCol).append
    (.literal (b := 0) rfl)).append h.memberCol).append (.literal (b := 0) rfl)).append
    h.rowExpr).append (.literal (b := 0) rfl)).append h.accountExpr

theorem NamedSet.Plain.contains (h : set.Plain) : ClosedOk (set.contains term v) := by
  have hstart : Shifts ("EXISTS (" ++ set.membershipFrom ++ " AND ") 0 1 :=
    ((Shifts.literal (b := 1) rfl).append (h.membershipFrom.at_depth 1)).append (.literal rfl)
  have hnamed (named : Sql) (hnamed : Closed named) :
      Closed (push ("EXISTS (" ++ set.membershipFrom ++ " AND ") ++ named ++ push ")") :=
    hnamed.wrap hstart (.literal rfl)
  unfold NamedSet.contains
  cases v with
  | id id =>
    exact closedOk_ok (hnamed _ ((closed_push (.literal rfl)).append (Moves.bound _ 0)))
  | text t =>
    exact closedOk_ok (hnamed _ (((Moves.raw (.literal (b := 1) rfl)).append
      (Moves.bound _ 1)).append (.raw (.literal rfl))))
  | pre t => exact closedOk_ok (hnamed _ (closed_likeContains (.literal rfl) t true))
  | keyword kw => exact closedOk_error _
  | choice c => exact closedOk_error _
  | date cmp => exact closedOk_error _
  | count cmp => exact closedOk_error _
  | size cmp => exact closedOk_error _

theorem NamedSet.Plain.none (h : set.Plain) : Guarded set.none := by
  unfold NamedSet.none
  split
  · exact guarded_push (((((GuardsText.literal (b := 2) rfl).append
      (h.membershipFrom.at_depth 1).guards).append (.literal (b := 1) rfl)).append
      shifts_unknownContactSql.guards).append (.literal rfl)).guarded
  · exact guarded_push (((GuardsText.literal (b := 1) rfl).append
      h.membershipFrom.guards).append (.literal rfl)).guarded

theorem guardedOk_emitSetWord (h : set.Plain) : GuardedOk (emitSetWord ctx term v set) := by
  have hcontains : GuardedOk ((set.contains term v).map (ctx.reach set.home)) :=
    (h.contains term v).map_guarded (fun _ hs => ctx.guarded_reach set.home hs)
  have hnot : Closed (push "NOT ") := closed_push (.literal rfl)
  have hguard : Guards (push "NOT ") 0 0 := .raw (.literal rfl)
  unfold emitSetWord
  split
  · split
    · exact guardedOk_ok h.none
    · exact guardedOk_ok
        (hguard.append_guarded (ctx.guarded_reach set.home (hnot.append h.none.closed)))
  · split
    · exact guardedOk_ok (ctx.guarded_contact (closed_push shifts_unknownContactSql))
    · exact hcontains
  · exact hcontains

end sets

theorem guardedOk_emitFrom : GuardedOk (emitFrom ctx term v) := by
  unfold emitFrom
  split
  · exact guardedOk_ok (guarded_push (.literal rfl rfl))
  · apply (closedOk_personMatches ctx term v (.literal rfl)).bind_guarded
    intro sender hsender
    exact guardedOk_ok (Guarded.wrap (k := 0) (.literal rfl) hsender (.literal rfl))

theorem guardedOk_emitTo : GuardedOk (emitTo ctx term v) := by
  unfold emitTo
  split
  · exact guardedOk_ok (guarded_push (.literal rfl rfl))
  · apply (guardedOk_withPerson ctx term v).closed.bind_guarded
    intro party hparty
    apply (closedOk_personMatches ctx term v (.literal rfl)).bind_guarded
    intro sender hsender
    exact guardedOk_ok (((((Guards.raw (.literal (b := 1) rfl)).append
      (hparty.inside 0)).append (.raw (.literal (b := 2) rfl))).append
      (hsender.inside 1)).append (.raw (.literal rfl))).guarded

theorem guarded_inText (t : String) (pre : Bool) : Guarded (inText ctx t pre) := by
  have htitle : Closed (likeContains "coalesce(c.group_title, '')" t pre) :=
    closed_likeContains (.literal rfl) t pre
  have hchat : Closed (likeContains "hc.raw" t pre) := closed_likeContains (.literal rfl) t pre
  exact ctx.guarded_conversation (((((Moves.raw (.literal (b := 1) rfl)).append
    (htitle.at_depth 1)).append (.raw (.literal (b := 2) rfl))).append (hchat.at_depth 2)).append
    (.raw (.literal rfl)))

theorem guardedOk_emitIn : GuardedOk (emitIn ctx term v) := by
  unfold emitIn
  split
  · exact guardedOk_ok (guarded_bound (.literal rfl) _)
  · exact guardedOk_ok (guarded_inText ctx _ false)
  · exact guardedOk_ok (guarded_inText ctx _ true)
  · exact guardedOk_error _

theorem guardedOk_importRun : GuardedOk (importRun ctx term v) := by
  unfold importRun
  split
  · exact guardedOk_ok (((Guards.raw (.literal (b := 1) rfl)).append (Guards.bound _ 1)).append
      (.raw (.literal rfl))).guarded
  · exact guardedOk_ok (Guards.bound _ 0).guarded
  · exact guardedOk_error _

theorem guardedOk_emitImport : GuardedOk (emitImport ctx term v) := by
  intro s h
  obtain ⟨run, hrun, h⟩ := Except.of_bind_eq_ok h
  have hrun := guardedOk_importRun ctx term v run hrun
  have hid : Guards (push "m.import_id = ") 0 0 := .raw (.literal rfl)
  split at h
  · cases h
    exact hid.append_guarded hrun
  · cases h
    exact ((((Guards.raw (.literal (b := 1) rfl)).append
      (.raw (.literal (b := 1) rfl))).append (hrun.closed.inside 0)).append
      (.raw (.literal rfl))).guarded

theorem guardedOk_emitPeopleWord : GuardedOk (emitPeopleWord ctx term v) := by
  unfold emitPeopleWord
  split
  · exact guardedOk_withPerson ctx term v
  · exact guardedOk_emitFrom ctx term v
  · exact guardedOk_emitTo ctx term v
  · exact guardedOk_emitIn ctx term v
  · exact guardedOk_emitSetWord ctx term v plain_contactGroups
  · exact guardedOk_emitSetWord ctx term v plain_messageTags
  · exact guardedOk_emitImport ctx term v
  · exact guardedOk_error _

/-! Kinds and attachments. -/

theorem guarded_cmpSql {expr : String} (h : GuardedText expr) (cmp : Cmp) :
    Guarded (cmpSql expr cmp) := by
  cases cmp with
  | eq n => exact guarded_bound (h.append rfl rfl) _
  | gt n => exact guarded_bound (h.append rfl rfl) _
  | gte n => exact guarded_bound (h.append rfl rfl) _
  | lt n => exact guarded_bound (h.append rfl rfl) _
  | lte n => exact guarded_bound (h.append rfl rfl) _
  | range a b =>
    have hlow : GuardsText ("(" ++ expr ++ " >= ") 0 1 :=
      ((GuardsText.literal (b := 1) rfl).append h.shifts.guards).append (.literal rfl)
    have hhigh : GuardsText (" AND " ++ expr ++ " <= ") 1 1 :=
      ((GuardsText.literal (b := 1) rfl).append h.shifts.guards).append (.literal rfl)
    exact (((((Guards.raw hlow).append (Guards.bound _ 1)).append (Guards.raw hhigh)).append
      (Guards.bound _ 1)).append (.raw (.literal rfl))).guarded

theorem shifts_attachmentKindSql (kind : String) : Shifts (attachmentKindSql kind) 0 0 := by
  have hmime : Shifts mime 0 0 := .literal rfl
  have htest (tail : String) (htail : Shifts tail 0 0) : Shifts (mime ++ tail) 0 0 :=
    hmime.append htail
  have himage := htest " LIKE 'image/%'" (.literal rfl)
  have hvideo := htest " LIKE 'video/%'" (.literal rfl)
  have haudio := htest " LIKE 'audio/%'" (.literal rfl)
  have hpdf := htest " = 'application/pdf'" (.literal rfl)
  have hcontact := htest " IN ('text/vcard', 'text/x-vcard')" (.literal rfl)
  have hdocument : Shifts ("(" ++ (mime ++ " = 'application/pdf'") ++ " OR " ++ mime ++
      " LIKE 'text/%' OR " ++ mime ++ " LIKE 'application/vnd.%' OR " ++ mime ++
      " IN ('application/msword', 'application/rtf'))") 0 0 :=
    ((((((((Shifts.literal (b := 1) rfl).append (hpdf.at_depth 1)).append
      (.literal (b := 1) rfl)).append (hmime.at_depth 1)).append (.literal (b := 1) rfl)).append
      (hmime.at_depth 1)).append (.literal (b := 1) rfl)).append (hmime.at_depth 1)).append
      (.literal rfl)
  have hor : Shifts " OR " 1 1 := .literal rfl
  unfold attachmentKindSql
  simp only
  split
  · exact himage
  · exact hvideo
  · exact haudio
  · exact hpdf
  · exact hcontact
  · exact ((((Shifts.literal (b := 1) rfl).append (hdocument.at_depth 1)).append
      (.literal (b := 1) rfl)).append (hcontact.at_depth 1)).append (.literal rfl)
  · exact (((((((((((Shifts.literal (b := 1) rfl).append (himage.at_depth 1)).append hor).append
      (hvideo.at_depth 1)).append hor).append (haudio.at_depth 1)).append hor).append
      (hdocument.at_depth 1)).append hor).append (hcontact.at_depth 1))).append (.literal rfl)

theorem guarded_trashedSql {notTrashed : String} (h : GuardsText notTrashed 0 0)
    (flag : String) : Guarded (trashedSql notTrashed flag) := by
  unfold trashedSql
  split
  · exact guarded_push h.guarded
  · exact guarded_push (((GuardsText.literal (b := 1) rfl).append
      h.guarded.shifts.guards).append (.literal rfl)).guarded
  · exact guarded_push (.literal rfl rfl)

theorem guards_notTrashedContactSql : GuardsText notTrashedContactSql 0 0 := .literal rfl

theorem guards_notTrashedConversationSql : GuardsText notTrashedConversationSql 0 0 :=
  .literal rfl

theorem guarded_emitTrashed (flag : String) : Guarded (emitTrashed ctx flag) := by
  unfold emitTrashed
  split
  · exact guarded_trashedSql guards_notTrashedContactSql flag
  · exact guarded_trashedSql guards_notTrashedConversationSql flag
  · exact ctx.guarded_conversation
      (guarded_trashedSql guards_notTrashedConversationSql flag).closed

theorem guarded_emitSource (id : String) : Guarded (emitSource ctx id) := by
  unfold emitSource
  split
  · exact guarded_bound (.literal rfl) _
  · exact (((Guards.raw (.literal (b := 1) rfl)).append (Guards.bound _ 1)).append
      (.raw (.literal rfl))).guarded

theorem guarded_emitAttachment (kind : String) : Guarded (emitAttachment ctx kind) := by
  unfold emitAttachment
  split
  · exact ctx.guarded_message (closed_push (.literal rfl))
  · exact ctx.guarded_message (closed_push (.literal rfl))
  · exact ctx.guarded_message (closed_push (((Shifts.literal (b := 1) rfl).append
      ((shifts_attachmentKindSql _).at_depth 1)).append (.literal rfl)))

theorem guardedOk_emitKindWord : GuardedOk (emitKindWord ctx term v) := by
  have hsize (cmp : Cmp) : Closed (cmpSql "a.size_bytes" cmp) :=
    (guarded_cmpSql (.literal rfl rfl) cmp).closed
  unfold emitKindWord
  split
  · exact guardedOk_ok (ctx.guarded_conversation
      ((closed_push (.literal rfl)).append (Moves.bound _ 0)))
  · exact guardedOk_ok (ctx.guarded_conversationMessage
      ((closed_push (.literal rfl)).append (Moves.bound _ 0)))
  · exact guardedOk_ok (guarded_emitSource ctx _)
  · exact guardedOk_ok (guarded_emitAttachment ctx _)
  · exact guardedOk_ok (ctx.guarded_message
      ((hsize _).wrap (k := 1) (.literal rfl) (.literal rfl)))
  · exact guardedOk_ok (guarded_emitTrashed ctx _)
  · exact guardedOk_error _

/-! Dates and counts. -/

section dates
variable {expr : String} (h : GuardedText expr) (zone : Tz)
include h

theorem guarded_atOrAfterSql (day : NaiveDate) : Guarded (atOrAfterSql expr zone day) := by
  unfold atOrAfterSql
  split
  · exact guarded_bound (h.append rfl rfl) _
  · exact guarded_push (.literal rfl rfl)

theorem guarded_beforeSql (day : NaiveDate) : Guarded (beforeSql expr zone day) := by
  unfold beforeSql
  split
  · exact guarded_bound (h.append rfl rfl) _
  · exact guarded_push (h.append_word rfl rfl rfl)

theorem guarded_dateSql (cmp : DateCmp) : Guarded (dateSql expr cmp zone) := by
  cases cmp with
  | within span =>
    exact (((((Guards.raw (.literal (b := 1) rfl)).append
      ((guarded_atOrAfterSql h zone span.start).closed.inside 0)).append
      (.raw (.literal (b := 1) rfl))).append
      ((guarded_beforeSql h zone span.stop).closed.inside 0)).append
      (.raw (.literal rfl))).guarded
  | gte d => exact guarded_atOrAfterSql h zone d
  | gt d => exact guarded_atOrAfterSql h zone d
  | lt d => exact guarded_beforeSql h zone d
  | lte d => exact guarded_beforeSql h zone d

end dates

theorem guardedOk_emitMeasureWord : GuardedOk (emitMeasureWord ctx term v) := by
  have hlink : GuardedText ("(SELECT COUNT(*) FROM conversations c2 WHERE " ++
      ctx.contactConversationsLink "c2" ++ ")") :=
    (((GuardsText.literal (b := 1) rfl).append
      (ctx.shifts_contactConversationsLink (.literal rfl)).guards).append (.literal rfl)).guarded
  have hdate (cmp : DateCmp) : Closed (dateSql "m.timestamp" cmp ctx.zone) :=
    (guarded_dateSql (.literal rfl rfl) ctx.zone cmp).closed
  have hpeople (cmp : Cmp) : Closed (cmpSql
      "(SELECT COUNT(*) FROM participants p WHERE p.conversation_id = c.id)" cmp) :=
    (guarded_cmpSql (GuardsText.literal rfl).guarded cmp).closed
  unfold emitMeasureWord
  split
  · exact guardedOk_ok (ctx.guarded_message (hdate _))
  · exact guardedOk_ok (guarded_dateSql (ctx.guardedText_messageAggregate .first) ctx.zone _)
  · exact guardedOk_ok (guarded_dateSql (ctx.guardedText_messageAggregate .last) ctx.zone _)
  · exact guardedOk_ok (guarded_cmpSql (ctx.guardedText_messageAggregate .count) _)
  · exact guardedOk_ok (guarded_cmpSql hlink _)
  · exact guardedOk_ok (guarded_cmpSql (GuardsText.literal rfl).guarded _)
  · exact guardedOk_ok (ctx.guarded_conversation (hpeople _))
  · exact guardedOk_ok (guarded_cmpSql (GuardsText.literal rfl).guarded _)
  · exact guardedOk_error _

/-! Fields, trees and the whole query. -/

theorem guardedOk_emitOne : GuardedOk (emitOne ctx term v) := by
  unfold emitOne
  split
  all_goals first
    | exact guardedOk_emitTextWord ctx term v
    | exact guardedOk_emitPeopleWord ctx term v
    | exact guardedOk_emitKindWord ctx term v
    | exact guardedOk_emitMeasureWord ctx term v
    | exact guardedOk_error _

theorem guarded_emitValues : ∀ {vs : List Value} {parts : List Sql},
    emitValues ctx term vs = .ok parts → ∀ s ∈ parts, Guarded s
  | [], parts, h => by
    cases h
    simp
  | v :: vs, parts, h => by
    rw [emitValues] at h
    obtain ⟨s, hs, h⟩ := Except.of_bind_eq_ok h
    obtain ⟨rest, hrest, h⟩ := Except.of_bind_eq_ok h
    cases h
    intro t ht
    obtain rfl | ht := List.mem_cons.mp ht
    · exact guardedOk_emitOne ctx term v t hs
    · exact guarded_emitValues hrest t ht

theorem closed_or : Closed (push " OR ") := closed_push (.literal rfl)

theorem closed_and : Closed (push " AND ") := closed_push (.literal rfl)

theorem guardedOk_emitField : GuardedOk (emitField ctx term) := by
  intro s h
  obtain ⟨parts, hparts, h⟩ := Except.of_bind_eq_ok h
  cases h
  have hclosed : ∀ s ∈ parts, Closed s := fun s hs => (guarded_emitValues ctx term hparts s hs).closed
  exact Guarded.paren (Closed.joined closed_or hclosed)

end words

mutual
theorem guardedOk_emitExpr (ctx : ListCtx) : ∀ e, GuardedOk (emitExpr ctx e)
  | .and parts => by
    intro s h
    rw [emitExpr] at h
    obtain ⟨ss, hss, h⟩ := Except.of_bind_eq_ok h
    cases h
    exact Guarded.paren (Closed.joined closed_and
      (fun s hs => (guarded_emitParts ctx parts ss hss s hs).closed))
  | .or parts => by
    intro s h
    rw [emitExpr] at h
    obtain ⟨ss, hss, h⟩ := Except.of_bind_eq_ok h
    cases h
    exact Guarded.paren (Closed.joined closed_or
      (fun s hs => (guarded_emitParts ctx parts ss hss s hs).closed))
  | .not e => by
    intro s h
    rw [emitExpr] at h
    obtain ⟨t, ht, h⟩ := Except.of_bind_eq_ok h
    cases h
    exact Guarded.notTrue (guardedOk_emitExpr ctx e t ht).closed
  | .text term => by
    rw [emitExpr]
    exact guardedOk_ok (guarded_emitText ctx term)
  | .field term => by
    rw [emitExpr]
    exact guardedOk_emitField ctx term

theorem guarded_emitParts (ctx : ListCtx) : ∀ (es : List Expr) (ss : List Sql),
    emitParts ctx es = .ok ss → ∀ s ∈ ss, Guarded s
  | [], ss, h => by
    cases h
    simp
  | e :: es, ss, h => by
    rw [emitParts] at h
    obtain ⟨t, ht, h⟩ := Except.of_bind_eq_ok h
    obtain ⟨rest, hrest, h⟩ := Except.of_bind_eq_ok h
    cases h
    intro s hs
    obtain rfl | hs := List.mem_cons.mp hs
    · exact guardedOk_emitExpr ctx e s ht
    · exact guarded_emitParts ctx es rest hrest s hs
end

theorem shifts_accountCol (ctx : ListCtx) : Shifts ctx.accountCol 0 0 := by
  unfold ListCtx.accountCol
  split
  · exact .literal rfl
  · exact .literal rfl
  · exact .literal rfl

theorem closed_ite {c : Prop} [Decidable c] {s : Sql} (h : Closed s) :
    Closed (if c then s else []) := by
  split
  · exact h
  · exact Moves.nil 0

theorem closed_emitDefaults (list : ListKind) (expr : Option Expr) :
    Closed (emitDefaults list expr) := by
  have hcontact := closed_push guards_notTrashedContactSql.guarded.shifts
  have hconversation := closed_push guards_notTrashedConversationSql.guarded.shifts
  unfold emitDefaults
  split
  · exact closed_ite (closed_and.append hcontact)
  · exact (closed_ite (closed_and.append hconversation)).append
      (closed_ite (closed_push (.literal rfl)))
  · exact (closed_ite (closed_push (.literal rfl))).append
      (closed_ite (((Moves.raw (.literal (b := 1) rfl)).append (hconversation.at_depth 1)).append
        (.raw (.literal rfl))))

/-- **Everything `compile` writes is closed**, for every tree. -/
theorem closedOk_compileSql (list : ListKind) (expr : Option Expr) (accountId : Int) (zone : Tz) :
    ClosedOk (compileSql list expr accountId zone) := by
  unfold compileSql
  simp only
  have hquery : ClosedOk (emitQuery
      { list, accountId, zone, trash := trashScope expr } expr) := by
    unfold emitQuery
    split
    · exact (guardedOk_emitExpr _ _).closed.map (fun _ hs => closed_and.append hs)
    · exact closedOk_ok (Moves.nil 0)
  apply hquery.bind
  intro query hq
  have hcol := (shifts_accountCol { list, accountId, zone, trash := trashScope expr }).at_depth 1
  have hparen : Moves (push "(") 0 1 := .raw (.literal rfl)
  have heq : Moves (push " = ") 1 1 := .raw (.literal rfl)
  have hopen := ((hparen.append (Moves.raw hcol)).append heq).append
    (Moves.bound (SqlParam.int accountId) 1)
  exact closedOk_ok (((hopen.append ((closed_emitDefaults list expr).at_depth 1)).append
    (hq.at_depth 1)).append (.raw (.literal rfl)))

end MessageCrate

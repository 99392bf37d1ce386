import MessageCrate.Search.Emit
import MessageCrate.Search.Grammar

/- The trees the parser builds, and that every one of them is written.

   1. `FieldSpec.Takes`: the values a word may have, which are all that `parseOneValue`
      answers (`takes_of_parseOneValue`).
   2. `emitOne_ok`: each of the twenty-seven words has an emitter for every value it takes.
   3. `Expr.Built`: `and` and `or` have operands, and a field has values its word takes.
      A tree the parser answers is built (`built_of_parse`). -/
namespace MessageCrate
open SqlText

/-! Values. -/

/-- The values a word may have. -/
def FieldSpec.Takes (spec : FieldSpec) : Value → Prop
  | .keyword kw => spec.valueType ≠ .choice ∧ spec.valueType ≠ .flag ∧ kw ∈ spec.values
  | .choice c => (spec.valueType = .choice ∨ spec.valueType = .flag) ∧ c ∈ spec.values
  | .text _ | .pre _ =>
    spec.valueType = .text ∨
      ((spec.valueType = .name ∨ spec.valueType = .person) ∧ spec.word ≠ "import")
  | .id _ => spec.valueType = .name ∨ spec.valueType = .person
  | .date _ => spec.valueType = .date
  | .count _ => spec.valueType = .count
  | .size _ => spec.valueType = .size

theorem takes_textOrPrefix {spec : FieldSpec} (raw : String) (quoted : Bool)
    (h : spec.Takes (.text "")) : spec.Takes (textOrPrefix raw quoted) := by
  unfold textOrPrefix
  split
  · split
    · exact h
    · exact h
  · exact h

/-- What is read of a value is one its word takes. -/
theorem takes_of_parseOneValue {spec : FieldSpec} {raw : String} {quoted : Bool}
    {today : NaiveDate} {v : Value} (himport : spec.word = "import" → spec.valueType = .name)
    (h : parseOneValue spec raw quoted today = some v) : spec.Takes v := by
  unfold parseOneValue at h
  simp only at h
  split at h
  · next kw hkw =>
    have hmem : kw ∈ spec.values := List.mem_of_find?_eq_some hkw
    split at h
    · next htype =>
      cases h
      exact ⟨.inl htype, hmem⟩
    · next htype =>
      cases h
      exact ⟨.inr htype, hmem⟩
    · next hchoice hflag =>
      cases h
      exact ⟨hchoice, hflag, hmem⟩
  · have hword (htype : spec.valueType = .name ∨ spec.valueType = .person)
        (hnot : ¬(spec.valueType = .name ∧ spec.word = "import")) :
        spec.Takes (textOrPrefix raw quoted) :=
      takes_textOrPrefix raw quoted (.inr ⟨htype, fun hw => hnot ⟨himport hw, hw⟩⟩)
    split at h
    · cases h
    · cases h
    · next htype =>
      cases h
      exact takes_textOrPrefix raw quoted (.inl htype)
    · next htype =>
      split at h
      · obtain ⟨id, _, rfl⟩ := Option.map_eq_some_iff.mp h
        exact .inl htype
      · next hnot =>
        split at h
        · cases h
          exact .inl htype
        · cases h
          exact hword (.inl htype) hnot
    · next htype =>
      split at h
      · obtain ⟨id, _, rfl⟩ := Option.map_eq_some_iff.mp h
        exact .inr htype
      · next hnot =>
        split at h
        · cases h
          exact .inr htype
        · cases h
          exact hword (.inr htype) hnot
    · next htype =>
      obtain ⟨cmp, _, rfl⟩ := Option.map_eq_some_iff.mp h
      exact htype
    · next htype =>
      obtain ⟨cmp, _, rfl⟩ := Option.map_eq_some_iff.mp h
      exact htype
    · next htype =>
      obtain ⟨cmp, _, rfl⟩ := Option.map_eq_some_iff.mp h
      exact htype

/-! The words by the emitter that writes them. -/

/-- What the registry says of each word, as its emitter needs it. -/
def FieldSpec.Family (spec : FieldSpec) : Prop :=
  (spec.word ∈ ["body", "subject", "name", "title", "identity", "filename"] ∧
    spec.valueType = .text ∧ ∀ kw ∈ spec.values, kw ∈ noneAny) ∨
  (spec.word ∈ ["with", "in"] ∧ (spec.valueType = .name ∨ spec.valueType = .person) ∧
    spec.values = []) ∨
  (spec.word ∈ ["from", "to"] ∧ spec.valueType = .person ∧ spec.values = ["me"]) ∨
  (spec.word ∈ ["group", "tag"] ∧ spec.valueType = .name ∧
    ∀ kw ∈ spec.values, kw = "none" ∨ (kw = "unknown" ∧ spec.word = "group")) ∨
  (spec.word = "import" ∧ spec.valueType = .name ∧ spec.values = ["last"]) ∨
  (spec.word ∈ ["kind", "service", "source", "attachment", "trashed"] ∧
    (spec.valueType = .choice ∨ spec.valueType = .flag)) ∨
  (spec.word = "size" ∧ spec.valueType = .size ∧ spec.values = []) ∨
  (spec.word ∈ ["date", "first-message", "last-message"] ∧ spec.valueType = .date ∧
    spec.values = []) ∨
  (spec.word ∈ ["messages", "conversations", "groups", "participants", "attachments"] ∧
    spec.valueType = .count ∧ spec.values = [])

instance (spec : FieldSpec) : Decidable spec.Family := by
  unfold FieldSpec.Family
  infer_instance

theorem family_of_mem {spec : FieldSpec} (h : spec ∈ fields) : spec.Family := by
  have hall : ∀ spec ∈ fields, spec.Family := by decide
  exact hall spec h

/-! Every value a word takes is written. -/

/-- It is not refused. -/
def Writes (x : Except QueryError Sql) : Prop := ∃ s, x = .ok s

section writes
variable (ctx : ListCtx) (term : FieldTerm) {v : Value}

theorem Writes.map {x : Except QueryError Sql} (h : Writes x) (f : Sql → Sql) :
    Writes (x.map f) := by
  obtain ⟨s, rfl⟩ := h
  exact ⟨f s, rfl⟩

theorem Writes.bind {x : Except QueryError Sql} (h : Writes x) {f : Sql → Except QueryError Sql}
    (hf : ∀ s, Writes (f s)) : Writes (x >>= f) := by
  obtain ⟨s, rfl⟩ := h
  exact hf s

/-- Text, a prefix, `none` or `any`. -/
def Value.Textual (v : Value) : Prop :=
  (∃ t, v = .text t) ∨ (∃ p, v = .pre p) ∨ v = .keyword "none" ∨ v = .keyword "any"

theorem writes_textMatch (column : String) (h : v.Textual) : Writes (textMatch column term v) := by
  obtain ⟨t, rfl⟩ | ⟨p, rfl⟩ | rfl | rfl := h
  · exact ⟨_, rfl⟩
  · exact ⟨_, rfl⟩
  · exact ⟨_, rfl⟩
  · exact ⟨_, rfl⟩

theorem writes_identityMatch (start : String) (h : v.Textual) :
    Writes (identityMatch start term v) := by
  apply (writes_textMatch term _ h).bind
  intro raw
  apply (writes_textMatch term _ h).bind
  exact fun normalized => ⟨_, rfl⟩

theorem writes_emitContactIdentity (h : v.Textual) : Writes (emitContactIdentity term v) := by
  obtain ⟨t, rfl⟩ | ⟨p, rfl⟩ | rfl | rfl := id h
  · exact writes_identityMatch term _ h
  · exact writes_identityMatch term _ h
  · exact ⟨_, rfl⟩
  · exact ⟨_, rfl⟩

theorem writes_emitConversationIdentity (h : v.Textual) :
    Writes (emitConversationIdentity term v) := by
  obtain ⟨t, rfl⟩ | ⟨p, rfl⟩ | rfl | rfl := id h
  · exact writes_identityMatch term _ h
  · exact writes_identityMatch term _ h
  · exact ⟨_, rfl⟩
  · exact ⟨_, rfl⟩

theorem writes_emitTextWord
    (hword : term.spec.word ∈ ["body", "subject", "name", "title", "identity", "filename"])
    (h : v.Textual) : Writes (emitTextWord ctx term v) := by
  unfold emitTextWord
  split
  · exact (writes_textMatch term _ h).map _
  · exact (writes_textMatch term _ h).map _
  · exact (writes_textMatch term _ h).map _
  · exact writes_textMatch term _ h
  · exact (writes_textMatch term _ h).bind (fun _ => ⟨_, rfl⟩)
  · exact writes_emitContactIdentity term h
  · exact (writes_emitConversationIdentity term h).map _
  · exact (writes_textMatch term _ h).bind (fun _ => ⟨_, rfl⟩)
  · simp_all

/-- A name, an address, a prefix or an id. -/
def Value.Personal (v : Value) : Prop :=
  (∃ t, v = .text t) ∨ (∃ p, v = .pre p) ∨ ∃ id, v = .id id

theorem writes_personMatches (handleIdExpr : String) (h : v.Personal) :
    Writes (personMatches ctx handleIdExpr term v) := by
  obtain ⟨t, rfl⟩ | ⟨p, rfl⟩ | ⟨n, rfl⟩ := h
  · exact ⟨_, rfl⟩
  · exact ⟨_, rfl⟩
  · exact ⟨_, rfl⟩

theorem writes_participantMatches (h : v.Personal) : Writes (participantMatches term v) := by
  obtain ⟨t, rfl⟩ | ⟨p, rfl⟩ | ⟨n, rfl⟩ := h
  · exact ⟨_, rfl⟩
  · exact ⟨_, rfl⟩
  · exact ⟨_, rfl⟩

theorem writes_withPerson (h : v.Personal) : Writes (withPerson ctx term v) := by
  apply (writes_personMatches ctx term _ h).bind
  intro chat
  apply (writes_personMatches ctx term _ h).bind
  intro handle
  exact (writes_participantMatches term h).bind (fun _ => ⟨_, rfl⟩)

theorem writes_emitFrom (h : v.Personal ∨ v = .keyword "me") : Writes (emitFrom ctx term v) := by
  obtain h | rfl := h
  · unfold emitFrom
    split
    · exact ⟨_, rfl⟩
    · exact (writes_personMatches ctx term _ h).bind (fun _ => ⟨_, rfl⟩)
  · exact ⟨_, rfl⟩

theorem writes_emitTo (h : v.Personal ∨ v = .keyword "me") : Writes (emitTo ctx term v) := by
  obtain h | rfl := h
  · unfold emitTo
    split
    · exact ⟨_, rfl⟩
    · apply (writes_withPerson ctx term h).bind
      intro party
      exact (writes_personMatches ctx term _ h).bind (fun _ => ⟨_, rfl⟩)
  · exact ⟨_, rfl⟩

theorem writes_contains (set : NamedSet) (h : v.Personal) : Writes (set.contains term v) := by
  obtain ⟨t, rfl⟩ | ⟨p, rfl⟩ | ⟨n, rfl⟩ := h
  · exact ⟨_, rfl⟩
  · exact ⟨_, rfl⟩
  · exact ⟨_, rfl⟩

theorem writes_emitSetWord {set : NamedSet} (h : v.Personal ∨ v = .keyword "none" ∨
    (v = .keyword "unknown" ∧ set.home = .contacts)) : Writes (emitSetWord ctx term v set) := by
  obtain h | rfl | ⟨rfl, hhome⟩ := h
  · unfold emitSetWord
    split
    · split
      · exact ⟨_, rfl⟩
      · exact ⟨_, rfl⟩
    · split
      · exact ⟨_, rfl⟩
      · exact (writes_contains term set h).map _
    · exact (writes_contains term set h).map _
  · unfold emitSetWord
    simp only
    split
    · exact ⟨_, rfl⟩
    · exact ⟨_, rfl⟩
  · exact ⟨_, if_pos hhome⟩

theorem writes_emitImport (h : (∃ id, v = .id id) ∨ v = .keyword "last") :
    Writes (emitImport ctx term v) := by
  have hrun : Writes (importRun ctx term v) := by
    obtain ⟨id, rfl⟩ | rfl := h
    · exact ⟨_, rfl⟩
    · exact ⟨_, rfl⟩
  apply hrun.bind
  intro run
  split
  · exact ⟨_, rfl⟩
  · exact ⟨_, rfl⟩

/-! Each family's values. -/

theorem textual_of_takes {spec : FieldSpec} (htype : spec.valueType = .text)
    (hvalues : ∀ kw ∈ spec.values, kw ∈ noneAny) (h : spec.Takes v) : v.Textual := by
  cases v with
  | keyword kw =>
    obtain rfl | rfl : kw = "none" ∨ kw = "any" := by simpa [noneAny] using hvalues kw h.2.2
    · exact .inr (.inr (.inl rfl))
    · exact .inr (.inr (.inr rfl))
  | text t => exact .inl ⟨t, rfl⟩
  | pre p => exact .inr (.inl ⟨p, rfl⟩)
  | _ => simp_all [FieldSpec.Takes]

theorem personal_of_takes {spec : FieldSpec}
    (htype : spec.valueType = .name ∨ spec.valueType = .person) (h : spec.Takes v) :
    v.Personal ∨ ∃ kw ∈ spec.values, v = .keyword kw := by
  cases v with
  | keyword kw => exact .inr ⟨kw, h.2.2, rfl⟩
  | text t => exact .inl (.inl ⟨t, rfl⟩)
  | pre p => exact .inl (.inr (.inl ⟨p, rfl⟩))
  | id n => exact .inl (.inr (.inr ⟨n, rfl⟩))
  | choice c => obtain ht | ht := htype <;> simp_all [FieldSpec.Takes]
  | _ => obtain ht | ht := htype <;> simp_all [FieldSpec.Takes]

/-- The numbers and dates are the only values of their words. -/
theorem date_of_takes {spec : FieldSpec} (htype : spec.valueType = .date)
    (hvalues : spec.values = []) (h : spec.Takes v) : ∃ cmp, v = .date cmp := by
  cases v <;> simp_all [FieldSpec.Takes]

theorem count_of_takes {spec : FieldSpec} (htype : spec.valueType = .count)
    (hvalues : spec.values = []) (h : spec.Takes v) : ∃ cmp, v = .count cmp := by
  cases v <;> simp_all [FieldSpec.Takes]

theorem size_of_takes {spec : FieldSpec} (htype : spec.valueType = .size)
    (hvalues : spec.values = []) (h : spec.Takes v) : ∃ cmp, v = .size cmp := by
  cases v <;> simp_all [FieldSpec.Takes]

theorem choice_of_takes {spec : FieldSpec}
    (htype : spec.valueType = .choice ∨ spec.valueType = .flag) (h : spec.Takes v) :
    ∃ c, v = .choice c := by
  cases v with
  | choice c => exact ⟨c, rfl⟩
  | _ => obtain ht | ht := htype <;> simp_all [FieldSpec.Takes]

theorem id_of_takes {spec : FieldSpec} (hword : spec.word = "import")
    (htype : spec.valueType = .name) (h : spec.Takes v) :
    (∃ n, v = .id n) ∨ ∃ kw ∈ spec.values, v = .keyword kw := by
  obtain (⟨t, rfl⟩ | ⟨p, rfl⟩ | ⟨n, rfl⟩) | hkw := personal_of_takes (.inl htype) h
  · simp_all [FieldSpec.Takes]
  · simp_all [FieldSpec.Takes]
  · exact .inl ⟨n, rfl⟩
  · exact .inr hkw

/-- **Every value a word takes is written.** -/
theorem writes_emitOne (hmem : term.spec ∈ fields) (h : term.spec.Takes v) :
    Writes (emitOne ctx term v) := by
  obtain ⟨hword, htype, hvalues⟩ | ⟨hword, htype, hvalues⟩ | ⟨hword, htype, hvalues⟩ |
    ⟨hword, htype, hvalues⟩ | ⟨hword, htype, hvalues⟩ | ⟨hword, htype⟩ |
    ⟨hword, htype, hvalues⟩ | ⟨hword, htype, hvalues⟩ | ⟨hword, htype, hvalues⟩ :=
    family_of_mem hmem
  · have hwrites := writes_emitTextWord ctx term hword (textual_of_takes htype hvalues h)
    simp only [List.mem_cons, List.not_mem_nil, or_false] at hword
    obtain hw | hw | hw | hw | hw | hw := hword <;> simpa [emitOne, hw] using hwrites
  · have hpersonal : v.Personal := by
      obtain h | ⟨kw, hkw, -⟩ := personal_of_takes htype h
      · exact h
      · simp [hvalues] at hkw
    simp only [List.mem_cons, List.not_mem_nil, or_false] at hword
    obtain hw | hw := hword
    · simpa [emitOne, emitPeopleWord, hw] using writes_withPerson ctx term hpersonal
    · have hin : Writes (emitIn ctx term v) := by
        obtain ⟨t, rfl⟩ | ⟨p, rfl⟩ | ⟨n, rfl⟩ := hpersonal
        · exact ⟨_, rfl⟩
        · exact ⟨_, rfl⟩
        · exact ⟨_, rfl⟩
      simpa [emitOne, emitPeopleWord, hw] using hin
  · have hvalue : v.Personal ∨ v = .keyword "me" := by
      obtain h | ⟨kw, hkw, rfl⟩ := personal_of_takes (.inr htype) h
      · exact .inl h
      · obtain rfl : kw = "me" := by simpa [hvalues] using hkw
        exact .inr rfl
    simp only [List.mem_cons, List.not_mem_nil, or_false] at hword
    obtain hw | hw := hword
    · simpa [emitOne, emitPeopleWord, hw] using writes_emitFrom ctx term hvalue
    · simpa [emitOne, emitPeopleWord, hw] using writes_emitTo ctx term hvalue
  · have hvalue : v.Personal ∨ v = .keyword "none" ∨
        (v = .keyword "unknown" ∧ term.spec.word = "group") := by
      obtain h | ⟨kw, hkw, rfl⟩ := personal_of_takes (.inl htype) h
      · exact .inl h
      · obtain rfl | ⟨rfl, hgroup⟩ := hvalues kw hkw
        · exact .inr (.inl rfl)
        · exact .inr (.inr ⟨rfl, hgroup⟩)
    simp only [List.mem_cons, List.not_mem_nil, or_false] at hword
    obtain hw | hw := hword
    · have hgroup : Writes (emitSetWord ctx term v contactGroups) := by
        apply writes_emitSetWord
        obtain h | h | ⟨h, -⟩ := hvalue
        · exact .inl h
        · exact .inr (.inl h)
        · exact .inr (.inr ⟨h, rfl⟩)
      simpa [emitOne, emitPeopleWord, hw] using hgroup
    · have htag : Writes (emitSetWord ctx term v messageTags) := by
        apply writes_emitSetWord
        obtain h | h | ⟨-, h⟩ := hvalue
        · exact .inl h
        · exact .inr (.inl h)
        · simp [hw] at h
      simpa [emitOne, emitPeopleWord, hw] using htag
  · have hvalue : (∃ n, v = .id n) ∨ v = .keyword "last" := by
      obtain hid | ⟨kw, hkw, rfl⟩ := id_of_takes hword htype h
      · exact .inl hid
      · obtain rfl : kw = "last" := by simpa [hvalues] using hkw
        exact .inr rfl
    simpa [emitOne, emitPeopleWord, hword] using writes_emitImport ctx term hvalue
  · obtain ⟨c, rfl⟩ := choice_of_takes htype h
    have hkind : Writes (emitKindWord ctx term (.choice c)) := by
      simp only [List.mem_cons, List.not_mem_nil, or_false] at hword
      obtain hw | hw | hw | hw | hw := hword <;> exact ⟨_, by simp only [emitKindWord, hw]; rfl⟩
    simp only [List.mem_cons, List.not_mem_nil, or_false] at hword
    obtain hw | hw | hw | hw | hw := hword <;> simpa [emitOne, hw] using hkind
  · obtain ⟨cmp, rfl⟩ := size_of_takes htype hvalues h
    exact ⟨_, by simp only [emitOne, emitKindWord, hword]; rfl⟩
  · obtain ⟨cmp, rfl⟩ := date_of_takes htype hvalues h
    simp only [List.mem_cons, List.not_mem_nil, or_false] at hword
    obtain hw | hw | hw := hword <;> exact ⟨_, by simp only [emitOne, emitMeasureWord, hw]; rfl⟩
  · obtain ⟨cmp, rfl⟩ := count_of_takes htype hvalues h
    simp only [List.mem_cons, List.not_mem_nil, or_false] at hword
    obtain hw | hw | hw | hw | hw := hword <;>
      exact ⟨_, by simp only [emitOne, emitMeasureWord, hw]; rfl⟩

theorem writes_emitValues (hmem : term.spec ∈ fields) : ∀ {vs : List Value},
    (∀ v ∈ vs, term.spec.Takes v) →
      ∃ ss, emitValues ctx term vs = .ok ss ∧ ss.length = vs.length
  | [], _ => ⟨[], rfl, rfl⟩
  | v :: vs, h => by
    obtain ⟨s, hs⟩ := writes_emitOne ctx term hmem (h v List.mem_cons_self)
    obtain ⟨ss, hss, hlength⟩ :=
      writes_emitValues hmem (fun w hw => h w (List.mem_cons_of_mem _ hw))
    refine ⟨s :: ss, ?_, by simp [hlength]⟩
    rw [emitValues, hs, hss]
    rfl

end writes

/-! Trees. -/

/-- A field whose values its word takes; there is at least one. -/
structure FieldTerm.Built (t : FieldTerm) : Prop where
  mem : t.spec ∈ fields
  ne_nil : t.values ≠ []
  takes : ∀ v ∈ t.values, t.spec.Takes v

mutual
/-- Every level has an operand, and every field is built. -/
def Expr.Built : Expr → Prop
  | .and parts => parts ≠ [] ∧ builtAll parts
  | .or parts => parts ≠ [] ∧ builtAll parts
  | .not e => e.Built
  | .field t => t.Built
  | .text _ => True

def Expr.builtAll : List Expr → Prop
  | [] => True
  | e :: es => e.Built ∧ builtAll es
end

theorem takes_of_parseValues {spec : FieldSpec} {quoted : Bool} {today : NaiveDate}
    (himport : spec.word = "import" → spec.valueType = .name) : ∀ {pieces : List String}
    {vs : List Value}, parseValues spec quoted today pieces = .ok vs →
      vs.length = pieces.length ∧ ∀ v ∈ vs, spec.Takes v
  | [], vs, h => by
    cases h
    exact ⟨rfl, by simp⟩
  | piece :: pieces, vs, h => by
    rw [parseValues] at h
    split at h
    · cases h
    · next v hv =>
      cases hrest : parseValues spec quoted today pieces with
      | error p =>
        rw [hrest] at h
        cases h
      | ok rest =>
        rw [hrest] at h
        cases h
        obtain ⟨hlength, htakes⟩ := takes_of_parseValues himport hrest
        refine ⟨by simp [hlength], ?_⟩
        intro w hw
        obtain rfl | hw := List.mem_cons.mp hw
        · exact takes_of_parseOneValue himport hv
        · exact htakes w hw

theorem import_name {spec : FieldSpec} (h : spec ∈ fields) :
    spec.word = "import" → spec.valueType = .name := by
  have hall : ∀ spec ∈ fields, spec.word = "import" → spec.valueType = .name := by decide
  exact hall spec h

theorem built_of_fieldTerm {list : ListKind} {word raw : String} {quoted : Bool}
    {span : Nat × Nat} {today : NaiveDate} {t : FieldTerm}
    (h : fieldTerm list word raw quoted span today = .ok t) : t.Built := by
  unfold fieldTerm at h
  split at h
  · cases h
  next spec hlookup =>
  obtain ⟨hmem, -⟩ := lookup_mem hlookup
  split at h
  · cases h
  split at h
  · cases h
  simp only at h
  generalize (if quoted then [raw] else _) = pieces at h
  split at h
  · cases h
  next hpieces =>
  split at h
  · cases h
  next values hvalues =>
  cases h
  obtain ⟨hlength, htakes⟩ := takes_of_parseValues (import_name hmem) hvalues
  refine ⟨hmem, ?_, htakes⟩
  intro hnil
  simp only at hnil
  rw [hnil] at hlength
  exact hpieces (List.isEmpty_iff.mpr (List.eq_nil_of_length_eq_zero hlength.symm))

theorem built_collapse (node : List Expr → Expr)
    (hnode : ∀ es, es ≠ [] → Expr.builtAll es → (node es).Built) : ∀ {es : List Expr}, es ≠ [] →
      Expr.builtAll es → (collapse node es).Built
  | [], h, _ => absurd rfl h
  | [_], _, hes => hes.1
  | _ :: _ :: _, h, hes => hnode _ h hes

theorem built_collapse_and {es : List Expr} (h : es ≠ []) (hes : Expr.builtAll es) :
    (collapse .and es).Built :=
  built_collapse .and (fun _ h hes => And.intro h hes) h hes

theorem built_collapse_or {es : List Expr} (h : es ≠ []) (hes : Expr.builtAll es) :
    (collapse .or es).Built :=
  built_collapse .or (fun _ h hes => And.intro h hes) h hes

section derivations
variable {list : ListKind} {today : NaiveDate}

mutual
theorem OrParts.built {ts : List Token} {es : List Expr} {n : Nat} :
    OrParts list today ts es n → es ≠ [] ∧ Expr.builtAll es
  | .last hand => ⟨List.cons_ne_nil _ _, built_collapse_and hand.built.1 hand.built.2, trivial⟩
  | .or hand _ hor =>
    ⟨List.cons_ne_nil _ _, built_collapse_and hand.built.1 hand.built.2, hor.built.2⟩

theorem AndParts.built {ts : List Token} {es : List Expr} {n : Nat} :
    AndParts list today ts es n → es ≠ [] ∧ Expr.builtAll es
  | .last hunary => ⟨List.cons_ne_nil _ _, hunary.built, trivial⟩
  | .and hunary _ hand => ⟨List.cons_ne_nil _ _, hunary.built, hand.built.2⟩
  | .space hunary hand => ⟨List.cons_ne_nil _ _, hunary.built, hand.built.2⟩

theorem Unary.built {ts : List Token} {e : Expr} {n : Nat} : Unary list today ts e n → e.Built
  | .not _ hunary => hunary.built
  | .minus _ hprimary => hprimary.built
  | .plain _ hprimary => hprimary.built

theorem Primary.built {ts : List Token} {e : Expr} {n : Nat} : Primary list today ts e n → e.Built
  | .group _ hor _ => built_collapse_or hor.built.1 hor.built.2
  | .field _ hterm => built_of_fieldTerm hterm
  | .term _ => trivial
  | .phrase _ _ => trivial
end

/-- **What the parser answers is built.** -/
theorem built_of_parse {tokens : List Token} {e : Expr}
    (h : parse list tokens today = .ok (some e)) : e.Built := by
  obtain ⟨parts, n, hor, rfl, -⟩ := derives_of_parse h
  exact built_collapse_or hor.built.1 hor.built.2

end derivations

end MessageCrate

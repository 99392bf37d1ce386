import MessageCrate.Search.Compile
import MessageCrate.Search.Grammar
import MessageCrate.Search.WebPieces

/- Values to search terms in the web app (`src/web/src/lib/searchQuery.ts`).

   A name or an identity that a person picks becomes `word:value`, with the value in quotes
   wherever the language would read it as syntax. The server has to read it back as that one
   value: not as an id, a prefix, a list or two words.

   What is proved:
     1. `readQuoted_escaped`: a quoted value is read back, whatever is in it.
     2. `suggestion_is_one_value`: the query is the one field term with the one text value, unless
        the value starts with `/` and needs no quotes. Then the server takes the whole for a word,
        as it does a pasted `http://x`. `quote` does not look for that.

   Correspondence (TypeScript ↔ Lean):
     `/[\s(),"]/.test(value)`          ↔ a character of `value` that `isSyntax` accepts
     `value.replace(/"/g, '""')`       ↔ `escaped` -/
namespace MessageCrate.Web
open Text

/-- `\s` of a regular expression. -/
def isJsSpace (c : Char) : Bool :=
  let n := c.toNat
  (9 ≤ n && n ≤ 13) || n == 0x20 || n == 0xA0 || n == 0x1680 || (0x2000 ≤ n && n ≤ 0x200A) ||
    n == 0x2028 || n == 0x2029 || n == 0x202F || n == 0x205F || n == 0x3000 || n == 0xFEFF

/-- `[\s(),"]`. -/
def isSyntax (c : Char) : Bool :=
  isJsSpace c || c == '(' || c == ')' || c == ',' || c == '"'

def escaped (cs : List Char) : List Char :=
  cs.flatMap (fun c => if c = '"' then ['"', '"'] else [c])

/-- Whether the language would read the value as syntax rather than one value. -/
def needsQuotes (value : String) : Bool :=
  value.isEmpty || value.toList.any isSyntax || value.toList.head? == some '#' ||
    value.toList.getLast? == some '*'

def quote (value : String) : String :=
  if needsQuotes value then "\"" ++ String.ofList (escaped value.toList) ++ "\"" else value

/-- One autocomplete term. -/
def suggestion (word value : String) : String := word ++ ":" ++ quote value

example : suggestion "group" "Family (close)" = "group:\"Family (close)\"" := by decide +kernel

/-! One term. -/

/-- **A quoted value is read back**, whatever follows its closing quote other than a quote. -/
theorem readQuoted_escaped (cs rest : List Char) (h : ∀ rest', rest ≠ '"' :: rest')
    (pos : Nat) : readQuoted (escaped cs ++ '"' :: rest) pos =
      some (cs, ⟨pos + byteLength (escaped cs) + 1, rest⟩) := by
  induction cs generalizing pos with
  | nil =>
    show readQuoted ('"' :: rest) pos = _
    rw [readQuoted_close h]
    rfl
  | cons c cs ih =>
    by_cases hc : c = '"'
    · have hescaped : escaped (c :: cs) = '"' :: '"' :: escaped cs := by
        rw [hc]
        rfl
      rw [hescaped, List.cons_append, List.cons_append, readQuoted, ih, hc, byteLength_cons,
        byteLength_cons, show '"'.utf8Size = 1 from rfl]
      simp only [Option.map_some, Option.some.injEq, Prod.mk.injEq, true_and]
      congr 1
      omega
    · have hescaped : escaped (c :: cs) = c :: escaped cs := by
        simp [escaped, hc]
      rw [hescaped, List.cons_append, readQuoted_other hc, ih, byteLength_cons]
      simp only [Option.map_some, Option.some.injEq, Prod.mk.injEq, true_and]
      congr 1
      omega

/-- A query that is one token, read to its end. -/
theorem tokenize_one {query : String} {tok : Token} (stop : Nat)
    (hlength : byteLength query.toList ≤ maxQueryBytes) (hnul : '\x00' ∉ query.toList)
    (hne : query.toList ≠ []) (hspace : ∀ c ∈ query.toList.head?, isAsciiWhitespace c = false)
    (hnext : nextToken ⟨0, query.toList⟩ = .ok (tok, ⟨stop, []⟩)) :
    tokenize query = .ok [tok] := by
  have hchars : query.toList.map (fun c => if c = '\x00' then ' ' else c) = query.toList := by
    refine (List.map_congr_left ?_).trans (List.map_id _)
    intro c hc
    refine if_neg ?_
    rintro rfl
    exact hnul hc
  have hstay : ((⟨0, query.toList⟩ : Cursor).scan isAsciiWhitespace).2 = ⟨0, query.toList⟩ := by
    obtain ⟨c, cs, hcs⟩ := List.exists_cons_of_ne_nil hne
    have hc : isAsciiWhitespace c = false := hspace c (by rw [hcs]; rfl)
    simp [Cursor.scan, Cursor.past, hcs, hc, byteLength]
  have hrest : query.toList.isEmpty = false := by simpa using hne
  have htail : readTokens query.toList.length ⟨stop, []⟩ = .ok [] := by
    cases query.toList.length with
    | zero => rfl
    | succ n => rfl
  unfold tokenize
  rw [if_neg (Nat.not_lt.mpr hlength)]
  simp only [hchars, readTokens, hstay, hrest, hnext, bind, Except.bind, htail]
  rfl

/-- The characters of a field word stop no scan. -/
theorem of_isFieldWord {w : List Char} (h : isFieldWord w = true) : ∀ c ∈ w,
    MessageCrate.isBareEnd c = false ∧ c ≠ ':' := by
  have hletter : ∀ c : Char, isAsciiAlphabetic c = true ∨ c = '-' →
      MessageCrate.isBareEnd c = false ∧ c ≠ ':' := by
    rintro c (hc | rfl)
    · have hne : ∀ d : Char, d.isAlpha = false → c ≠ d := by
        rintro d hd rfl
        rw [isAsciiAlphabetic, hd] at hc
        cases hc
      refine ⟨?_, hne ':' rfl⟩
      simp [MessageCrate.isBareEnd, isAsciiWhitespace, hne ' ' rfl, hne '\t' rfl, hne '\n' rfl,
        hne '\x0c' rfl, hne '\r' rfl, hne '(' rfl, hne ')' rfl]
    · decide
  cases w with
  | nil => cases h
  | cons c cs =>
    obtain ⟨hc, hcs⟩ := Bool.and_eq_true_iff.mp h
    intro d hd
    obtain rfl | hd := List.mem_cons.mp hd
    · exact hletter d (.inl hc)
    · exact hletter d (by simpa using List.all_eq_true.mp hcs d hd)

theorem head_isFieldWord {w : List Char} (h : isFieldWord w = true) :
    ∃ c cs, w = c :: cs ∧ c.isAlpha = true := by
  cases w with
  | nil => cases h
  | cons c cs => exact ⟨c, cs, rfl, (Bool.and_eq_true_iff.mp h).1⟩

/-- A word, a colon and more text: a field, unless the text starts with `/`. -/
theorem nextToken_word {w vs : List Char} (h : isFieldWord w = true) :
    nextToken ⟨0, w ++ ':' :: vs⟩ =
      if vs.head? = some '/' then
        let (text, next) := (⟨0, w ++ ':' :: vs⟩ : Cursor).scan
          (fun c => !MessageCrate.isBareEnd c)
        .ok (⟨wordOrOperator (String.ofList text) false, (0, next.pos), false⟩, next)
      else readField 0 false (toAsciiLower (String.ofList w)) ⟨byteLength w + 1, vs⟩ := by
  obtain ⟨c, cs, hw, hc⟩ := head_isFieldWord h
  have hne : ∀ d : Char, d.isAlpha = false → c ≠ d := by
    rintro d hd rfl
    rw [hd] at hc
    cases hc
  have hhead : (⟨0, w ++ ':' :: vs⟩ : Cursor).scan
      (fun c => !MessageCrate.isBareEnd c && c != ':') = (w, ⟨byteLength w, ':' :: vs⟩) := by
    have hkept : ∀ d ∈ w, (!MessageCrate.isBareEnd d && d != ':') = true := by
      intro d hd
      obtain ⟨hbare, hcolon⟩ := of_isFieldWord h d hd
      simp [hbare, hcolon]
    rw [Cursor.scan, List.takeWhile_append_of_pos hkept, List.dropWhile_append_of_pos hkept]
    simp [Cursor.past]
  have hclose : ∀ rest, (⟨0, w ++ ':' :: vs⟩ : Cursor).rest ≠ ')' :: rest := by
    rw [hw]
    rintro rest ⟨⟩
    exact hne ')' rfl rfl
  have hminus : isNegated (w ++ ':' :: vs) = false := by
    unfold isNegated
    split
    · next heq =>
      rw [hw, List.cons_append] at heq
      exact absurd (List.cons.inj heq).1 (hne '-' rfl)
    · rfl
  rw [nextToken_operand hclose, hminus, if_neg Bool.false_ne_true]
  unfold MessageCrate.readOperand
  split
  · next heq =>
    rw [hw] at heq
    cases heq
    exact absurd rfl (hne '(' rfl)
  · next heq =>
    rw [hw] at heq
    cases heq
    exact absurd rfl (hne '"' rfl)
  · unfold readBare
    simp only [hhead]
    split
    · next rest heq =>
      cases heq
      exact (if_pos rfl).symm
    · next rest hslash heq =>
      cases heq
      have hnot : vs.head? ≠ some '/' := by
        intro hhead
        obtain ⟨vs', rfl⟩ := List.head?_eq_some_iff.mp hhead
        exact hslash vs' rfl
      rw [if_pos h, if_neg hnot]
    · next hcolon => exact absurd rfl (hcolon vs)

/-! One value. -/

/-- Quotes keep a value from being a prefix or an id, and a value that needs none is neither. -/
theorem stripSuffix_star {value : String} (h : value.toList.getLast? ≠ some '*') :
    stripSuffix "*" value = none := by
  refine if_neg ?_
  rw [List.isSuffixOf_iff_suffix]
  rintro ⟨before, hbefore⟩
  have hstar : "*".toList = ['*'] := rfl
  rw [← hbefore, hstar, List.getLast?_append_of_ne_nil _ (List.cons_ne_nil _ _)] at h
  exact h rfl

theorem stripPrefix_hash {value : String} (h : value.toList.head? ≠ some '#') :
    stripPrefix "#" value = none := by
  refine if_neg ?_
  rw [List.isPrefixOf_iff_prefix]
  rintro ⟨after, hafter⟩
  have hhash : "#".toList = ['#'] := rfl
  rw [← hafter, hhash] at h
  exact h rfl

theorem textOrPrefix_quote {value : String} (htrim : trim value = value) :
    textOrPrefix value (needsQuotes value) = .text value := by
  unfold textOrPrefix
  cases hquotes : needsQuotes value with
  | true =>
    rw [htrim]
    split
    · rfl
    · rfl
  | false =>
    have hstar : value.toList.getLast? ≠ some '*' := by
      intro heq
      rw [needsQuotes, heq] at hquotes
      simp at hquotes
    rw [stripSuffix_star hstar, htrim]

theorem parseOneValue_quote {spec : FieldSpec} {value : String} (today : NaiveDate)
    (htype : spec.valueType = .text ∨ spec.valueType = .name ∨ spec.valueType = .person)
    (himport : spec.word ≠ "import") (htrim : trim value = value)
    (hkeyword : toAsciiLower value ∉ spec.values) :
    parseOneValue spec value (needsQuotes value) today = some (.text value) := by
  have hnone : spec.values.find? (· == toAsciiLower value) = none := by
    rw [List.find?_eq_none]
    intro kw hkw heq
    exact hkeyword (beq_iff_eq.mp heq ▸ hkw)
  have hid : (if needsQuotes value then none else parseId value) = none := by
    cases hquotes : needsQuotes value with
    | true => rfl
    | false =>
      have hhash : value.toList.head? ≠ some '#' := by
        intro heq
        rw [needsQuotes, heq] at hquotes
        simp at hquotes
      rw [if_neg Bool.false_ne_true, parseId, htrim, stripPrefix_hash hhash]
      rfl
  unfold parseOneValue
  simp only [htrim, hnone]
  obtain htype | htype | htype := htype
  · rw [htype]
    simp only [textOrPrefix_quote htrim]
  · rw [htype]
    simp only [himport, and_false, if_false, hid, textOrPrefix_quote htrim]
  · rw [htype]
    simp only [himport, and_false, if_false, hid, textOrPrefix_quote htrim]

/-- The server takes the value as one text. -/
theorem fieldTerm_quote {spec : FieldSpec} {list : ListKind} {value : String} (today : NaiveDate)
    (span : Nat × Nat) (hspec : spec ∈ fields) (hlist : list ∈ spec.lists)
    (htype : spec.valueType = .text ∨ spec.valueType = .name ∨ spec.valueType = .person)
    (himport : spec.word ≠ "import") (hne : value ≠ "") (htrim : trim value = value)
    (hkeyword : toAsciiLower value ∉ spec.values) :
    fieldTerm list spec.word value (needsQuotes value) span today =
      .ok ⟨spec, [.text value], span⟩ := by
  have hcontains : spec.lists.contains list = true := by simpa using hlist
  have hblank : isBlank value = false := by
    rw [isBlank, htrim]
    simpa using hne
  have hpieces : (if needsQuotes value then [value]
      else ((value.toList.splitOn ',').map String.ofList).filter (fun p => !isBlank p)) =
        [value] := by
    cases hquotes : needsQuotes value with
    | true => rfl
    | false =>
      have hcomma : ',' ∉ value.toList := by
        intro hmem
        have hsyntax : value.toList.any isSyntax = true :=
          List.any_eq_true.mpr ⟨',', hmem, by decide⟩
        rw [needsQuotes, hsyntax] at hquotes
        simp at hquotes
      have hsplit : value.toList.splitOn ',' = [value.toList] := by
        have := splitOn_append_of_notMem [] hcomma
        simpa using this
      rw [if_neg Bool.false_ne_true, hsplit]
      simp [hblank]
  unfold fieldTerm
  rw [lookup_word hspec]
  simp only [hcontains, hblank, hpieces]
  simp [parseValues, parseOneValue_quote today htype himport htrim hkeyword, Except.map]

/-- A run with a colon is no operator. -/
theorem wordOrOperator_colon {text : String} (h : ':' ∈ text.toList) :
    ∃ word pre, wordOrOperator text false = .word word pre := by
  have hcolon : ':' ∈ (toAsciiLower text).toList := by
    rw [toAsciiLower, String.toList_ofList]
    exact List.mem_map.mpr ⟨':', h, rfl⟩
  unfold wordOrOperator
  simp only [Bool.false_eq_true, if_false]
  split
  · next heq =>
    rw [heq] at hcolon
    exact absurd hcolon (by decide)
  · next heq =>
    rw [heq] at hcolon
    exact absurd hcolon (by decide)
  · next heq =>
    rw [heq] at hcolon
    exact absurd hcolon (by decide)
  · split
    · split
      · exact ⟨_, _, rfl⟩
      · exact ⟨_, _, rfl⟩
    · exact ⟨_, _, rfl⟩

theorem colon_mem_suggestion (word value : String) : ':' ∈ (suggestion word value).toList := by
  simp [suggestion]

/-- A value without quotes has no character that ends it early. -/
theorem plain_of_needsQuotes {value : String} (h : needsQuotes value = false) :
    ∀ c ∈ value.toList, MessageCrate.isBareEnd c = false ∧ c ≠ '"' := by
  intro c hc
  have hsyntax : isSyntax c = false := by
    have hnone : value.toList.any isSyntax = false := by
      cases hany : value.toList.any isSyntax with
      | false => rfl
      | true =>
        rw [needsQuotes, hany] at h
        simp at h
    rw [List.any_eq_false] at hnone
    simpa using hnone c hc
  have hne : ∀ d : Char, isSyntax d = true → c ≠ d := by
    intro d hd heq
    rw [heq, hd] at hsyntax
    cases hsyntax
  refine ⟨?_, hne '"' (by decide)⟩
  simp [MessageCrate.isBareEnd, isAsciiWhitespace, hne ' ' (by decide), hne '\t' (by decide),
    hne '\n' (by decide), hne '\x0c' (by decide), hne '\r' (by decide), hne '(' (by decide),
    hne ')' (by decide)]

theorem scan_all {keep : Char → Bool} {cs : List Char} (h : ∀ c ∈ cs, keep c = true) (pos : Nat) :
    (⟨pos, cs⟩ : Cursor).scan keep = (cs, ⟨pos + byteLength cs, []⟩) := by
  rw [Cursor.scan, List.takeWhile_eq_self_iff.mpr h, List.dropWhile_eq_nil_iff.mpr h]
  rfl

/-- The token of a term: a field with the value, or a word where the value is a `/`. -/
theorem tokenize_suggestion {spec : FieldSpec} {value : String} (hspec : spec ∈ fields)
    (hnul : '\x00' ∉ value.toList)
    (hlength : byteLength (suggestion spec.word value).toList ≤ maxQueryBytes) :
    ∃ span, tokenize (suggestion spec.word value) =
      if needsQuotes value = true ∨ value.toList.head? ≠ some '/' then
        .ok [⟨.field spec.word value (needsQuotes value), span, false⟩]
      else .ok [⟨wordOrOperator (suggestion spec.word value) false, span, false⟩] := by
  obtain ⟨hword, hlower, hnulWord⟩ : isFieldWord spec.word.toList = true ∧
      toAsciiLower spec.word = spec.word ∧ '\x00' ∉ spec.word.toList := by
    have hall : ∀ s ∈ fields, isFieldWord s.word.toList = true ∧
        toAsciiLower s.word = s.word ∧ '\x00' ∉ s.word.toList := by
      decide +kernel
    exact hall spec hspec
  have hchars : (suggestion spec.word value).toList =
      spec.word.toList ++ ':' :: (quote value).toList := by
    simp [suggestion]
  have hspace : ∀ c ∈ (suggestion spec.word value).toList.head?, isAsciiWhitespace c = false := by
    obtain ⟨d, ds, hds, -⟩ := head_isFieldWord hword
    intro c hc
    rw [hchars, hds] at hc
    cases hc
    have hbare := (of_isFieldWord hword d (by rw [hds]; exact List.mem_cons_self)).1
    rw [MessageCrate.isBareEnd, Bool.or_eq_false_iff, Bool.or_eq_false_iff] at hbare
    exact hbare.1.1
  have hsome : (suggestion spec.word value).toList ≠ [] := by
    rw [hchars]
    simp
  have hnul' : '\x00' ∉ (suggestion spec.word value).toList := by
    rw [hchars, List.mem_append, List.mem_cons]
    rintro (hmem | heq | hmem)
    · exact hnulWord hmem
    · cases heq
    · unfold quote at hmem
      split at hmem
      · simp only [String.toList_append, String.toList_ofList, List.mem_append] at hmem
        rcases hmem with (hmem | hmem) | hmem
        · exact absurd hmem (by decide)
        · obtain ⟨c, hc, hmem⟩ := List.mem_flatMap.mp hmem
          split at hmem
          · exact absurd hmem (by decide)
          · exact hnul (List.mem_singleton.mp hmem ▸ hc)
        · exact absurd hmem (by decide)
      · exact hnul hmem
  cases hquotes : needsQuotes value with
  | true =>
    have hquote : (quote value).toList = '"' :: (escaped value.toList ++ '"' :: []) := by
      rw [quote, if_pos hquotes]
      simp
    refine ⟨(0, byteLength spec.word.toList + 1 + 1 + byteLength (escaped value.toList) + 1), ?_⟩
    rw [if_pos (.inl rfl)]
    refine tokenize_one
      (byteLength spec.word.toList + 1 + 1 + byteLength (escaped value.toList) + 1)
      hlength hnul' hsome hspace ?_
    have hopen : ('"' :: (escaped value.toList ++ '"' :: [])).head? ≠ some '/' := by simp
    have hread := readQuoted_escaped value.toList [] (fun _ heq => by cases heq)
      (byteLength spec.word.toList + 1 + 1)
    rw [hchars, hquote, nextToken_word hword, if_neg hopen, readField]
    simp only [quotedAfter, hread, String.ofList_toList, hlower]
    show Except.ok (_, _) = _
    simp only [String.ofList_toList]
  | false =>
    have hplain := plain_of_needsQuotes hquotes
    have hquote : quote value = value := by
      rw [quote, hquotes]
      rfl
    have hkeep : ∀ c ∈ value.toList, (!MessageCrate.isBareEnd c) = true := by
      intro c hc
      rw [(hplain c hc).1]
      rfl
    by_cases hslash : value.toList.head? = some '/'
    · have hall : ∀ c ∈ spec.word.toList ++ ':' :: value.toList,
          (!MessageCrate.isBareEnd c) = true := by
        intro c hc
        obtain hc | hc := List.mem_append.mp hc
        · rw [(of_isFieldWord hword c hc).1]
          rfl
        obtain rfl | hc := List.mem_cons.mp hc
        · rfl
        · exact hkeep c hc
      refine ⟨(0, 0 + byteLength (spec.word.toList ++ ':' :: value.toList)), ?_⟩
      rw [if_neg (by simp [hslash])]
      refine tokenize_one (0 + byteLength (spec.word.toList ++ ':' :: value.toList))
        hlength hnul' hsome hspace ?_
      rw [hchars, hquote, nextToken_word hword, if_pos hslash, scan_all hall]
      have hwhole : String.ofList (spec.word.toList ++ ':' :: value.toList) =
          suggestion spec.word value := by
        have hchars' := hchars
        rw [hquote] at hchars'
        rw [← hchars', String.ofList_toList]
      simp only [hwhole]
    · refine ⟨(0, byteLength spec.word.toList + 1 + byteLength value.toList), ?_⟩
      rw [if_pos (.inr hslash)]
      refine tokenize_one (byteLength spec.word.toList + 1 + byteLength value.toList)
        hlength hnul' hsome hspace ?_
      rw [hchars, hquote, nextToken_word hword, if_neg hslash, readField]
      split
      · next cs hcs =>
        exact absurd rfl ((hplain '"' (by rw [show value.toList = _ from hcs]; exact List.mem_cons_self)).2)
      · simp only [scan_all hkeep, String.ofList_toList, hlower]

/-- **A picked value is one value to the server**, unless it starts with `/` and is not quoted. -/
theorem suggestion_is_one_value {spec : FieldSpec} {list : ListKind} {value : String}
    (today : NaiveDate) (hspec : spec ∈ fields) (hlist : list ∈ spec.lists)
    (htype : spec.valueType = .text ∨ spec.valueType = .name ∨ spec.valueType = .person)
    (himport : spec.word ≠ "import") (hne : value ≠ "") (htrim : trim value = value)
    (hnul : '\x00' ∉ value.toList) (hkeyword : toAsciiLower value ∉ spec.values)
    (hlength : byteLength (suggestion spec.word value).toList ≤ maxQueryBytes) :
    (∃ span, parseQuery list (suggestion spec.word value) today =
        .ok (some (.field ⟨spec, [.text value], span⟩))) ↔
      needsQuotes value = true ∨ value.toList.head? ≠ some '/' := by
  obtain ⟨span, htokens⟩ := tokenize_suggestion hspec hnul hlength
  have hparse : parseQuery list (suggestion spec.word value) today =
      (refuse (tokenize (suggestion spec.word value)) >>= fun tokens => parse list tokens today) := rfl
  rw [hparse, htokens]
  split
  · next hfield =>
    refine iff_of_true ⟨span, ?_⟩ hfield
    refine parse_of_derives ⟨[_], 0, .last (.last (.plain rfl (.field rfl
      (fieldTerm_quote today span hspec hlist htype himport hne htrim hkeyword)))), rfl,
      by decide, ?_, ?_⟩
    · show (0 : Nat) ≤ 32
      decide
    · show (1 : Nat) ≤ 64
      decide
  · next hword =>
    refine iff_of_false ?_ hword
    rintro ⟨span', h⟩
    obtain ⟨text, pre, hkind⟩ := wordOrOperator_colon (colon_mem_suggestion spec.word value)
    rw [hkind] at h
    have htext : parse list [⟨.word text pre, span, false⟩] today =
        .ok (some (.text (.term text pre))) :=
      parse_of_derives ⟨[_], 0, .last (.last (.plain rfl (.term rfl))), rfl, by decide,
        by show (1 : Nat) ≤ 32; decide, by show (1 : Nat) ≤ 64; decide⟩
    have heq := htext.symm.trans h
    cases heq

/-- The word `tag`. -/
def tagSpec : FieldSpec :=
  { word := "tag", valueType := .name, lists := [.contacts, .conversations, .messages],
    values := ["none"], example' := "tag:Holiday" }

/-- A Message Tag with a space is one value. One that starts with `/` is not. -/
theorem suggestion_is_one_value_tag :
    (∃ span, parseQuery .messages (suggestion "tag" "Book Club") ⟨0, by decide⟩ =
      .ok (some (.field ⟨tagSpec, [.text "Book Club"], span⟩))) ∧
    ¬ ∃ span, parseQuery .messages (suggestion "tag" "/r/aww") ⟨0, by decide⟩ =
      .ok (some (.field ⟨tagSpec, [.text "/r/aww"], span⟩)) := by
  have hspec : tagSpec ∈ fields := by decide +kernel
  constructor
  · exact (suggestion_is_one_value ⟨0, by decide⟩ hspec
      (by decide : ListKind.messages ∈ tagSpec.lists)
      (.inr (.inl rfl)) (by decide) (by decide) (by decide +kernel) (by decide) (by decide +kernel)
      (by decide +kernel)).mpr (.inl (by decide +kernel))
  · intro h
    have hcond := (suggestion_is_one_value ⟨0, by decide⟩ hspec
      (by decide : ListKind.messages ∈ tagSpec.lists)
      (.inr (.inl rfl)) (by decide) (by decide) (by decide +kernel) (by decide) (by decide +kernel)
      (by decide +kernel)).mp h
    exact absurd hcond (by decide +kernel)

end MessageCrate.Web

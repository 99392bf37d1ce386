import MessageCrate.Search.Calendar
import MessageCrate.Search.Emit

/- What a date value says of a day.

   1. `DateCmp.read`: a filter is read from its two bounds. The SQL of a date word is read so
      (`dateSql_eq_read`), and so is what the filter says of a day (`DateCmp.Holds`).
   2. `parseDateSpan_lt`: a span that is accepted holds a day: the forms one by one, the months
      by `Search.Calendar`.
   3. `accepted_letters`: a value that is accepted is digits, letters and hyphens, so a
      comparison in front of it is read as that comparison (`parseDate_op`). -/
namespace MessageCrate
open Text

/-! Filters read from their bounds. -/

/-- A filter from what it is to be at or after a day and before one. -/
def DateCmp.read {γ : Type} (both : γ → γ → γ) (atOrAfter before : NaiveDate → γ) : DateCmp → γ
  | .within span => both (atOrAfter span.start) (before span.stop)
  | .gte d | .gt d => atOrAfter d
  | .lt d | .lte d => before d

theorem dateSql_eq_read (expr : String) (cmp : DateCmp) (zone : Tz) :
    dateSql expr cmp zone =
      cmp.read (fun a b => push "(" ++ a ++ push " AND " ++ b ++ push ")") (atOrAfterSql expr zone)
        (beforeSql expr zone) := by
  cases cmp with
  | within span => rfl
  | gte d => rfl
  | gt d => rfl
  | lt d => rfl
  | lte d => rfl

/-- What the filter says of a day. -/
def DateCmp.Holds (cmp : DateCmp) (day : Int) : Prop :=
  cmp.read And (fun d => d.day ≤ day) (fun d => day < d.day)

/-! Spans that are accepted. -/

/-- The months a unit stands for. -/
def unitMonths (unit : Char) : Int := if unit = 'm' then 1 else 12

/-- A span that ends today starts where its unit says. -/
theorem lookback_eq_some {days : Nat} (start : Option NaiveDate) {tomorrow : NaiveDate} {span : DateSpan}
    (h : (if maxLookbackDays < days then none
      else start.bind fun first => some ⟨first, tomorrow⟩) = some span) :
    start = some span.start ∧ span.stop = tomorrow := by
  split at h
  · cases h
  · obtain ⟨first, hfirst, h⟩ := Option.bind_eq_some_iff.mp h
    cases h
    exact ⟨hfirst, rfl⟩

theorem relativeSpan_days {unit : Char} {n : Nat} {today tomorrow : NaiveDate} {span : DateSpan}
    (hunit : unit = 'd' ∨ unit = 'w') (h : relativeSpan unit n today tomorrow = some span) :
    span.start.day ≤ today.day ∧ span.stop = tomorrow := by
  rcases hunit with rfl | rfl
  · obtain ⟨hstart, hstop⟩ := lookback_eq_some (today.addDays (-n)) h
    have := NaiveDate.addDays_eq_some.mp hstart
    exact ⟨by omega, hstop⟩
  · obtain ⟨hstart, hstop⟩ := lookback_eq_some (today.addDays (-(n * 7))) h
    have := NaiveDate.addDays_eq_some.mp hstart
    exact ⟨by omega, hstop⟩

/-- A span of months starts as many months back. -/
theorem relativeSpan_months {unit : Char} {n : Nat} {today tomorrow : NaiveDate} {span : DateSpan}
    (hunit : unit = 'm' ∨ unit = 'y') (h : relativeSpan unit n today tomorrow = some span) :
    shiftMonthsBack today (n * unitMonths unit) = some span.start ∧ span.stop = tomorrow := by
  rcases hunit with rfl | rfl
  · rw [unitMonths, if_pos rfl, Int.mul_one]
    exact lookback_eq_some (shiftMonthsBack today n) h
  · rw [unitMonths, if_neg (by decide)]
    exact lookback_eq_some (shiftMonthsBack today (n * 12)) h

theorem relativeSpan_lt {unit : Char} {n : Nat} {today tomorrow : NaiveDate} {span : DateSpan}
    (hunit : unit = 'd' ∨ unit = 'w' ∨ unit = 'm' ∨ unit = 'y') (htomorrow : tomorrow.day = today.day + 1)
    (h : relativeSpan unit n today tomorrow = some span) : span.start.day < span.stop.day := by
  have hparts : span.start.day ≤ today.day ∧ span.stop = tomorrow := by
    rcases hunit with hunit | hunit | hunit
    · exact relativeSpan_days (.inl hunit) h
    · exact relativeSpan_days (.inr hunit) h
    · obtain ⟨hstart, hstop⟩ := relativeSpan_months hunit h
      refine ⟨shiftMonthsBack_le (Int.mul_nonneg (Int.natCast_nonneg n) ?_) hstart, hstop⟩
      rw [unitMonths]
      split
      · omega
      · omega
  rw [hparts.2, htomorrow]
  omega

theorem calendarSpan_lt {parts : List (List Char)} {span : DateSpan}
    (h : calendarSpan parts = some span) : span.start.day < span.stop.day := by
  unfold calendarSpan at h
  split at h
  · next y =>
    split at h
    · obtain ⟨start, hstart, h⟩ := Option.bind_eq_some_iff.mp h
      obtain ⟨stop, hstop, h⟩ := Option.bind_eq_some_iff.mp h
      cases h
      show start.day < stop.day
      rw [(NaiveDate.fromYmdOpt_eq_some.mp hstart).2, (NaiveDate.fromYmdOpt_eq_some.mp hstop).2,
        ← monthStart_index _ (by omega) (by omega), ← monthStart_index _ (by omega) (by omega)]
      apply monthStart_strictMono
      omega
    · cases h
  · next y m =>
    split at h
    · obtain ⟨start, hstart, h⟩ := Option.bind_eq_some_iff.mp h
      obtain ⟨stop, hstop, h⟩ := Option.bind_eq_some_iff.mp h
      cases h
      show start.day < stop.day
      obtain ⟨hvalid, hday⟩ := NaiveDate.fromYmdOpt_eq_some.mp hstart
      have hlength := daysInMonth_bounds (digitsValue y) (digitsValue m)
      rw [hday, (firstOfNextMonth_eq_some hvalid.1 hvalid.2.1).mp hstop]
      omega
    · cases h
  · next y m d =>
    split at h
    · obtain ⟨start, hstart, h⟩ := Option.bind_eq_some_iff.mp h
      obtain ⟨stop, hstop, h⟩ := Option.bind_eq_some_iff.mp h
      cases h
      show start.day < stop.day
      rw [NaiveDate.addDays_eq_some.mp hstop]
      omega
    · cases h
  · cases h

/-- What is read of a value: its text without the white space around it, in lower case. -/
def spanChars (raw : String) : List Char := (toAsciiLower (trim raw)).toList

/-- The forms of a value that is accepted. -/
theorem parseDateSpan_cases {raw : String} {today : NaiveDate} {span : DateSpan}
    (h : parseDateSpan raw today = some span) :
    ∃ tomorrow, today.addDays 1 = some tomorrow ∧ spanChars raw ≠ [] ∧
      (spanChars raw = "today".toList ∧ span = ⟨today, tomorrow⟩ ∨
      spanChars raw = "yesterday".toList ∧ span.start.day = today.day - 1 ∧ span.stop = today ∨
      (∃ digits unit n, spanChars raw = digits ++ [unit] ∧
        (unit = 'd' ∨ unit = 'w' ∨ unit = 'm' ∨ unit = 'y') ∧ allDigits digits = true ∧
        n = digitsValue digits ∧ relativeSpan unit n today tomorrow = some span) ∨
      calendarSpan ((spanChars raw).splitOn '-') = some span) := by
  rw [parseDateSpan] at h
  obtain ⟨tomorrow, htomorrow, h⟩ := Option.bind_eq_some_iff.mp h
  refine ⟨tomorrow, htomorrow, ?_⟩
  change (if (spanChars raw).isEmpty = true then none
    else if spanChars raw = "today".toList then some ⟨today, tomorrow⟩
    else if spanChars raw = "yesterday".toList then
      (today.addDays (-1)).bind fun start => some ⟨start, today⟩
    else _) = some span at h
  split at h
  · cases h
  next hne =>
  have hne' : spanChars raw ≠ [] := by simpa using hne
  refine ⟨hne', ?_⟩
  split at h
  · next htoday =>
    cases h
    exact .inl ⟨htoday, rfl⟩
  split at h
  · next hyesterday =>
    obtain ⟨start, hstart, h⟩ := Option.bind_eq_some_iff.mp h
    cases h
    refine .inr (.inl ⟨hyesterday, ?_, rfl⟩)
    show start.day = today.day - 1
    rw [NaiveDate.addDays_eq_some.mp hstart]
    omega
  refine .inr (.inr ?_)
  change (if ((((spanChars raw).getLast?.getD ' ' == 'd' || (spanChars raw).getLast?.getD ' ' == 'w' ||
      (spanChars raw).getLast?.getD ' ' == 'm' || (spanChars raw).getLast?.getD ' ' == 'y') &&
      allDigits (spanChars raw).dropLast) = true) then
      (parseDigits (2 ^ 32 - 1) (spanChars raw).dropLast).bind fun n =>
        relativeSpan ((spanChars raw).getLast?.getD ' ') n today tomorrow
    else calendarSpan ((spanChars raw).splitOn '-')) = some span at h
  split at h
  · next hunit =>
    obtain ⟨digits, unit, hsplit⟩ := (List.eq_nil_or_concat' (spanChars raw)).resolve_left hne'
    rw [hsplit, List.getLast?_append, List.getLast?_singleton, List.dropLast_concat] at hunit h
    simp only [Option.some_or, Option.getD_some] at hunit h
    obtain ⟨n, hn, h⟩ := Option.bind_eq_some_iff.mp h
    have hvalue : n = digitsValue digits := by
      rw [parseDigits] at hn
      split at hn
      · exact (Option.some.inj hn).symm
      · cases hn
    rw [Bool.and_eq_true] at hunit
    exact .inl ⟨digits, unit, n, hsplit, by simpa [or_assoc] using hunit.1, hunit.2, hvalue, h⟩
  · exact .inr h

theorem calendarSpan_digits {parts : List (List Char)} {span : DateSpan}
    (h : calendarSpan parts = some span) : ∀ p ∈ parts, allDigits p = true := by
  unfold calendarSpan at h
  split at h
  · split at h
    · next hy => simpa using hy.2
    · cases h
  · split at h
    · next hym => simpa using ⟨hym.2.1, hym.2.2.2⟩
    · cases h
  · split at h
    · next hymd => simpa using ⟨hymd.2.1, hymd.2.2.2.1, hymd.2.2.2.2.2⟩
    · cases h
  · cases h

/-- Digits, letters and the hyphen. -/
def isSpanChar (c : Char) : Bool := c.isDigit || c.isLower || c == '-'

theorem isSpanChar_of_allDigits {cs : List Char} (h : allDigits cs = true) :
    ∀ c ∈ cs, isSpanChar c = true := by
  intro c hc
  rw [allDigits, Bool.and_eq_true, List.all_eq_true] at h
  rw [isSpanChar, h.2 c hc]
  rfl

theorem calendarSpan_letters {cs : List Char} {span : DateSpan}
    (h : calendarSpan (cs.splitOn '-') = some span) : ∀ c ∈ cs, c = '-' ∨ c.isDigit = true := by
  intro c hc
  rcases mem_part_of_splitOn c hc with hyphen | ⟨p, hp, hcp⟩
  · exact .inl hyphen
  · have hdigits := calendarSpan_digits h p hp
    rw [allDigits, Bool.and_eq_true, List.all_eq_true] at hdigits
    exact .inr (hdigits.2 c hcp)

/-- **A value that is accepted is digits, letters and hyphens.** -/
theorem accepted_letters {raw : String} {today : NaiveDate} {span : DateSpan}
    (h : parseDateSpan raw today = some span) : ∀ c ∈ spanChars raw, isSpanChar c = true := by
  obtain ⟨tomorrow, -, -, hcases⟩ := parseDateSpan_cases h
  rcases hcases with ⟨hword, -⟩ | ⟨hword, -⟩ | ⟨digits, unit, n, hsplit, hunit, hdigits, -⟩ | hspan
  · rw [hword]
    exact List.all_eq_true.mp (by decide)
  · rw [hword]
    exact List.all_eq_true.mp (by decide)
  · rw [hsplit]
    intro c hc
    rcases List.mem_append.mp hc with hc | hc
    · exact isSpanChar_of_allDigits hdigits c hc
    · obtain rfl := List.mem_singleton.mp hc
      rcases hunit with rfl | rfl | rfl | rfl
      · rfl
      · rfl
      · rfl
      · rfl
  · intro c hc
    rcases calendarSpan_letters hspan c hc with rfl | hdigit
    · rfl
    · rw [isSpanChar, hdigit]
      rfl

/-- **A span that is accepted holds a day.** -/
theorem parseDateSpan_lt {raw : String} {today : NaiveDate} {span : DateSpan}
    (h : parseDateSpan raw today = some span) : span.start.day < span.stop.day := by
  obtain ⟨tomorrow, htomorrow, -, hcases⟩ := parseDateSpan_cases h
  rw [NaiveDate.addDays_eq_some] at htomorrow
  rcases hcases with ⟨-, rfl⟩ | ⟨-, hstart, hstop⟩ | ⟨digits, unit, n, -, hunit, -, -, hspan⟩ | hspan
  · show today.day < tomorrow.day
    omega
  · rw [hstart, hstop]
    omega
  · exact relativeSpan_lt hunit htomorrow hspan
  · exact calendarSpan_lt hspan

/-- A span of months starts on the same day of its month, or on the last one of a shorter
month. -/
theorem parseDateSpan_months {raw : String} {today : NaiveDate} {span : DateSpan}
    (h : parseDateSpan raw today = some span) {digits : List Char} {unit : Char}
    (hraw : spanChars raw = digits ++ [unit]) (hdigits : allDigits digits = true)
    (hunit : unit = 'm' ∨ unit = 'y') :
    span.start.monthIndex = today.monthIndex - digitsValue digits * unitMonths unit ∧
      span.start.dayOfMonth =
        min today.dayOfMonth (daysInMonth span.start.year span.start.month) := by
  obtain ⟨tomorrow, htomorrow, -, hcases⟩ := parseDateSpan_cases h
  rw [hraw] at hcases
  rcases hcases with ⟨hword, -⟩ | ⟨hword, -⟩ | ⟨digits', unit', n, hsame, -, -, rfl, hspan⟩ | hspan
  · obtain ⟨rfl, -⟩ := List.append_inj' (hword.trans (show "today".toList = "toda".toList ++ ['y'] from rfl)) rfl
    exact absurd hdigits (by decide)
  · obtain ⟨rfl, -⟩ := List.append_inj'
      (hword.trans (show "yesterday".toList = "yesterda".toList ++ ['y'] from rfl)) rfl
    exact absurd hdigits (by decide)
  · obtain ⟨rfl, hlast⟩ := List.append_inj' hsame rfl
    obtain rfl : unit = unit' := by simpa using hlast
    exact shiftMonthsBack_spec (relativeSpan_months hunit hspan).1
  · -- digits and hyphens do not end in a letter
    rcases calendarSpan_letters hspan unit (by simp) with rfl | hdigit
    · exact absurd hunit (by decide)
    · rcases hunit with rfl | rfl
      · exact absurd hdigit (by decide)
      · exact absurd hdigit (by decide)

/-! Comparisons in front of a value. -/

theorem parseDateSpan_congr {raw raw' : String} (h : trim raw = trim raw') (today : NaiveDate) :
    parseDateSpan raw today = parseDateSpan raw' today := by
  rw [parseDateSpan, parseDateSpan, h]

/-- The text of a value that is accepted has no character that a filter is read by. -/
theorem core_letters {raw : String} {today : NaiveDate} {span : DateSpan}
    (h : parseDateSpan raw today = some span) : ∀ c ∈ trimChars raw.toList,
      isSpanChar c.toLower = true := by
  intro c hc
  apply accepted_letters h
  simp only [spanChars, toAsciiLower, trim, String.toList_ofList]
  exact List.mem_map_of_mem hc

/-- What may stand between a comparison and the end of its value. -/
theorem not_sign {c : Char} (h : isWhitespace c = true ∨ isSpanChar c.toLower = true) :
    c ≠ '.' ∧ c ≠ '=' ∧ c ≠ '<' ∧ c ≠ '>' := by
  have hsign : ∀ d : Char, isWhitespace d = false → isSpanChar d.toLower = false → c ≠ d := by
    intro d hspace hspan hd
    rw [hd, hspace, hspan] at h
    simp at h
  exact ⟨hsign _ (by decide) (by decide), hsign _ (by decide) (by decide),
    hsign _ (by decide) (by decide), hsign _ (by decide) (by decide)⟩

theorem core_ne_nil {raw : String} {today : NaiveDate} {span : DateSpan}
    (h : parseDateSpan raw today = some span) : trimChars raw.toList ≠ [] := by
  obtain ⟨_, -, hne, -⟩ := parseDateSpan_cases h
  intro hnil
  exact hne (by simp [spanChars, toAsciiLower, trim, hnil])

/-- A sign in front of a value stays in front of it when the white space goes. -/
theorem signed_value (op : String) (sign : Char) (more : List Char) {v : String} {today : NaiveDate}
    {span : DateSpan} (h : parseDateSpan v today = some span) (hop : op.toList = sign :: more)
    (hsign : isWhitespace sign = false) :
    ∃ c rest, trim (op ++ v) = String.ofList (sign :: (more ++ c :: rest)) ∧
      (∀ x ∈ c :: rest, x ≠ '.' ∧ x ≠ '=' ∧ x ≠ '<' ∧ x ≠ '>') ∧
      parseDateSpan (String.ofList (c :: rest)) today = some span := by
  obtain ⟨a, b, hparts, ha, hb⟩ := trimChars_parts v.toList
  have hcore := core_letters h
  have hne := core_ne_nil h
  have hlast := getLast?_trimChars v.toList
  have htrim := trimChars_trimChars v.toList
  have hspan : parseDateSpan (String.ofList (a ++ trimChars v.toList)) today = some span := by
    have hsame : trim (String.ofList (a ++ trimChars v.toList)) = trim v := by
      have hback := trimChars_between (b := []) (trimChars v.toList) ha (by simp)
      rw [List.append_nil, htrim] at hback
      rw [trim, trim, String.toList_ofList, hback]
    rw [parseDateSpan_congr hsame, h]
  generalize trimChars v.toList = core at *
  -- the white space between the sign and the value stays too
  have hkept : trimChars (op ++ v).toList = sign :: (more ++ (a ++ core)) := by
    have hfront := trimChars_between (a := []) (sign :: (more ++ (a ++ core))) (by simp) hb
    have hself : trimChars (sign :: (more ++ (a ++ core))) = sign :: (more ++ (a ++ core)) := by
      apply trimChars_eq_self
      · simpa using hsign
      · intro c hc
        apply hlast c
        rw [← List.cons_append, ← List.append_assoc, List.getLast?_append_of_ne_nil _ hne] at hc
        exact hc
    rw [hself] at hfront
    rw [String.toList_append, hop, hparts]
    simpa using hfront
  obtain ⟨c, rest, hrest⟩ := List.exists_cons_of_ne_nil
    (show a ++ core ≠ [] from fun hnil => hne (List.append_eq_nil_iff.mp hnil).2)
  rw [hrest] at hkept hspan
  refine ⟨c, rest, by rw [trim, hkept], ?_, hspan⟩
  intro x hx
  rw [← hrest] at hx
  rcases List.mem_append.mp hx with hx | hx
  · exact not_sign (.inl (ha x hx))
  · exact not_sign (.inr (hcore x hx))

theorem splitOnce_range {cs : List Char} (h : ∀ c ∈ cs, c ≠ '.') :
    splitOnce ".." (String.ofList cs) = none := by
  have hnot : '.' ∉ cs := fun hmem => h '.' hmem rfl
  have hnone : splitOnceChars "..".toList cs = none :=
    splitOnceChars_of_notMem (d := '.') (by decide) hnot
  simp only [splitOnce, String.toList_ofList, hnone, Option.map_none]

theorem parseDate_bare {v : String} {today : NaiveDate} {span : DateSpan}
    (h : parseDateSpan v today = some span) : parseDate v today = some (.within span) := by
  have hcore := core_letters h
  have hspan : parseDateSpan (trim v) today = some span := by
    rw [parseDateSpan_congr (trim_trim v), h]
  obtain ⟨c, rest, hrest⟩ := List.exists_cons_of_ne_nil (core_ne_nil h)
  have htrim : trim v = String.ofList (c :: rest) := by rw [trim, hrest]
  rw [hrest] at hcore
  have hsplit : splitOnce ".." (String.ofList (c :: rest)) = none :=
    splitOnce_range fun x hx => (not_sign (.inr (hcore x hx))).1
  obtain ⟨-, -, hless, hmore⟩ := not_sign (.inr (hcore c (by simp)))
  rw [htrim] at hspan
  simp only [parseDate, htrim]
  rw [if_neg (by simp), hsplit]
  simp [stripPrefix, hspan, hless.symm, hmore.symm, -String.ofList_cons]

/-- Neither the sign nor the value has the dots of a range. -/
theorem splitOnce_signed (sign : Char) (more : List Char) {rest : List Char}
    (hrest : ∀ x ∈ rest, x ≠ '.' ∧ x ≠ '=' ∧ x ≠ '<' ∧ x ≠ '>') (hsign : '.' ∉ sign :: more) :
    splitOnce ".." (String.ofList (sign :: (more ++ rest))) = none := by
  apply splitOnce_range
  intro x hx hdot
  rw [← List.cons_append] at hx
  rcases List.mem_append.mp hx with hx | hx
  · exact hsign (hdot ▸ hx)
  · exact (hrest x hx).1 hdot

theorem parseDate_lt {v : String} {today : NaiveDate} {span : DateSpan}
    (h : parseDateSpan v today = some span) :
    parseDate ("<" ++ v) today = some (.lt span.start) := by
  obtain ⟨c, rest, htrim, hsigns, hspan⟩ := signed_value "<" '<' [] h rfl (by decide)
  have hsplit := splitOnce_signed '<' [] hsigns (by decide)
  obtain ⟨-, hequal, -, -⟩ := hsigns c (by simp)
  simp only [parseDate, htrim]
  rw [if_neg (by simp), hsplit]
  have hlength : "<".length = 1 := rfl
  simp [stripPrefix, hspan, hlength, hequal.symm, -String.ofList_cons]

theorem parseDate_gt {v : String} {today : NaiveDate} {span : DateSpan}
    (h : parseDateSpan v today = some span) :
    parseDate (">" ++ v) today = some (.gt span.stop) := by
  obtain ⟨c, rest, htrim, hsigns, hspan⟩ := signed_value ">" '>' [] h rfl (by decide)
  have hsplit := splitOnce_signed '>' [] hsigns (by decide)
  obtain ⟨-, hequal, -, -⟩ := hsigns c (by simp)
  simp only [parseDate, htrim]
  rw [if_neg (by simp), hsplit]
  have hlength : ">".length = 1 := rfl
  simp [stripPrefix, hspan, hlength, hequal.symm, -String.ofList_cons]

theorem parseDate_lte {v : String} {today : NaiveDate} {span : DateSpan}
    (h : parseDateSpan v today = some span) :
    parseDate ("<=" ++ v) today = some (.lte span.stop) := by
  obtain ⟨c, rest, htrim, hsigns, hspan⟩ := signed_value "<=" '<' ['='] h rfl (by decide)
  have hsplit := splitOnce_signed '<' ['='] hsigns (by decide)
  simp only [parseDate, htrim]
  rw [if_neg (by simp), hsplit]
  have hlength : "<=".length = 2 := rfl
  simp [stripPrefix, hspan, hlength, -String.ofList_cons]

theorem parseDate_gte {v : String} {today : NaiveDate} {span : DateSpan}
    (h : parseDateSpan v today = some span) :
    parseDate (">=" ++ v) today = some (.gte span.start) := by
  obtain ⟨c, rest, htrim, hsigns, hspan⟩ := signed_value ">=" '>' ['='] h rfl (by decide)
  have hsplit := splitOnce_signed '>' ['='] hsigns (by decide)
  simp only [parseDate, htrim]
  rw [if_neg (by simp), hsplit]
  have hlength : ">=".length = 2 := rfl
  simp [stripPrefix, hspan, hlength, -String.ofList_cons]

/-- A range is the days from the first value's start to the second one's end. -/
theorem parseDate_range {raw a b : String} {today : NaiveDate} {cmp : DateCmp}
    (h : parseDate raw today = some cmp) (hrange : splitOnce ".." (trim raw) = some (a, b)) :
    ∃ first last, parseDateSpan a today = some first ∧ parseDateSpan b today = some last ∧
      cmp = .within ⟨first.start, last.stop⟩ ∧ first.start.day < last.stop.day := by
  simp only [parseDate, hrange] at h
  split at h
  · cases h
  · obtain ⟨first, hfirst, h⟩ := Option.bind_eq_some_iff.mp h
    obtain ⟨last, hlast, h⟩ := Option.bind_eq_some_iff.mp h
    split at h
    · cases h
    · next hlt =>
      cases h
      exact ⟨first, last, hfirst, hlast, rfl, by omega⟩

/-! What the filters say of a day. -/

/-- The five filters of one value. -/
structure Filters where
  less : DateCmp
  same : DateCmp
  more : DateCmp
  atLeast : DateCmp
  atMost : DateCmp

/-- The filters of `v` with each comparison in front of it. -/
def filtersOf (v : String) (today : NaiveDate) : Option Filters := do
  return {
    less := ← parseDate ("<" ++ v) today
    same := ← parseDate v today
    more := ← parseDate (">" ++ v) today
    atLeast := ← parseDate (">=" ++ v) today
    atMost := ← parseDate ("<=" ++ v) today }

/-- Exactly one of three. -/
def OneOf (p q r : Prop) : Prop := p ∧ ¬ q ∧ ¬ r ∨ ¬ p ∧ q ∧ ¬ r ∨ ¬ p ∧ ¬ q ∧ r

structure Filters.Trichotomous (f : Filters) : Prop where
  oneOf : ∀ day, OneOf (f.less.Holds day) (f.same.Holds day) (f.more.Holds day)
  atLeast : ∀ day, f.atLeast.Holds day ↔ ¬ f.less.Holds day
  atMost : ∀ day, f.atMost.Holds day ↔ ¬ f.more.Holds day

theorem filtersOf_eq {v : String} {today : NaiveDate} {span : DateSpan}
    (h : parseDateSpan v today = some span) :
    filtersOf v today =
      some ⟨.lt span.start, .within span, .gt span.stop, .gte span.start, .lte span.stop⟩ := by
  simp [filtersOf, parseDate_lt h, parseDate_bare h, parseDate_gt h, parseDate_gte h, parseDate_lte h]

/-- The bounds of a span that holds a day part the days in three. -/
theorem trichotomous_of_lt {span : DateSpan} (h : span.start.day < span.stop.day) :
    Filters.Trichotomous
      ⟨.lt span.start, .within span, .gt span.stop, .gte span.start, .lte span.stop⟩ where
  oneOf := by
    intro day
    simp only [OneOf, DateCmp.Holds, DateCmp.read]
    omega
  atLeast := by
    intro day
    simp only [DateCmp.Holds, DateCmp.read]
    omega
  atMost := by
    intro day
    simp only [DateCmp.Holds, DateCmp.read]
    omega

/-- **A value's filters part the days in three, a range is the days from one value to another,
and a span of months starts on its day or the last one of a shorter month.** -/
theorem date_values_part_the_days (today : NaiveDate) :
    (∀ v span, parseDateSpan v today = some span →
      span.start.day < span.stop.day ∧
      (∃ f, filtersOf v today = some f ∧ f.Trichotomous) ∧
      ∀ digits unit, spanChars v = digits ++ [unit] → allDigits digits = true →
        unit = 'm' ∨ unit = 'y' →
        span.start.monthIndex = today.monthIndex - digitsValue digits * unitMonths unit ∧
          span.start.dayOfMonth =
            min today.dayOfMonth (daysInMonth span.start.year span.start.month)) ∧
    ∀ raw cmp a b, parseDate raw today = some cmp → splitOnce ".." (trim raw) = some (a, b) →
      ∃ first last, parseDateSpan a today = some first ∧ parseDateSpan b today = some last ∧
        (∀ day, cmp.Holds day ↔ first.start.day ≤ day ∧ day < last.stop.day) ∧
        ∃ day, cmp.Holds day := by
  constructor
  · intro v span h
    have hlt := parseDateSpan_lt h
    exact ⟨hlt, ⟨_, filtersOf_eq h, trichotomous_of_lt hlt⟩,
      fun digits unit hraw hdigits hunit => parseDateSpan_months h hraw hdigits hunit⟩
  · intro raw cmp a b h hrange
    obtain ⟨first, last, hfirst, hlast, rfl, hlt⟩ := parseDate_range h hrange
    exact ⟨first, last, hfirst, hlast, fun day => Iff.rfl, first.start.day, Int.le_refl _, hlt⟩

/-- The last day of March in a leap year. -/
def marchEnd : NaiveDate := ⟨daysFromCivil 2024 3 31, by decide⟩

theorem date_values_part_the_days_marchEnd :
    ∃ span, parseDateSpan "1m" marchEnd = some span ∧ span.start.day < span.stop.day ∧
      (∃ f, filtersOf "1m" marchEnd = some f ∧ f.Trichotomous) ∧
      span.start.monthIndex = 2024 * 12 + 1 := by
  obtain ⟨span, hspan⟩ := Option.isSome_iff_exists.mp
    (show (parseDateSpan "1m" marchEnd).isSome = true by decide +kernel)
  obtain ⟨hlt, hfilters, hmonths⟩ := (date_values_part_the_days marchEnd).1 "1m" span hspan
  have hindex := (hmonths ['1'] 'm' (by decide +kernel) (by decide) (.inl rfl)).1
  have htoday : marchEnd.monthIndex = 2024 * 12 + 2 := by decide +kernel
  have hone : (digitsValue ['1'] : Int) * unitMonths 'm' = 1 := by decide
  exact ⟨span, hspan, hlt, hfilters, by omega⟩

example : (parseDateSpan "1m" marchEnd).map (fun span => civilFromDays span.start.day) =
    some (2024, 2, 29) := by decide +kernel

end MessageCrate

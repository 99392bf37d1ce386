import MessageCrate.Formats.Mboxrd

/- mboxrd records split back.

   1. Quoting: `unescape_escape`, and no quoted line starts a record (`startsFrom_escape`).
   2. What was written is lines (`recordLines`), and a line that starts a record is the first of
      one, or a line of a sender's handle that holds line feeds.
   3. `readRecord_eq_iff`: what comes back of one record is its EML when its first line is one
      line and no line of the EML ends in two carriage returns, of which the writer takes one
      and the reader the other.
   4. `splitMboxrd_iff`: for records one after another. -/
namespace MessageCrate.Mail

open Lines

/-! Quoting. -/

section quoting
variable {line : List Char}

theorem startsFrom_iff : startsFrom line = true ↔ "From ".toList <+: line :=
  List.isPrefixOf_iff_prefix

theorem startsFrom_quoted : startsFrom ('>' :: line) = false := by
  rw [Bool.eq_false_iff]
  intro h
  obtain ⟨t, ht⟩ := startsFrom_iff.mp h
  simp at ht

/-- A line that starts with `From ` has no quotes to drop. -/
theorem dropWhile_of_startsFrom (h : startsFrom line = true) :
    line.dropWhile (· == '>') = line := by
  obtain ⟨t, rfl⟩ := startsFrom_iff.mp h
  rfl

theorem unescape_escape (line : List Char) : unescapeMboxrdLine (escapeMboxrdLine line) = line := by
  rw [escapeMboxrdLine]
  split
  · next h => simp [unescapeMboxrdLine, h]
  · next h => rw [unescapeMboxrdLine, if_neg (fun hboth => h hboth.2)]

theorem startsFrom_escape (line : List Char) : startsFrom (escapeMboxrdLine line) = false := by
  rw [escapeMboxrdLine]
  split
  · exact startsFrom_quoted
  · next h =>
    rw [Bool.eq_false_iff]
    intro hstarts
    rw [dropWhile_of_startsFrom hstarts] at h
    exact h hstarts

/-- A line that is not of the form is left alone both ways. -/
theorem escape_of_not (h : startsFrom (line.dropWhile (· == '>')) = false) :
    escapeMboxrdLine line = line ∧ unescapeMboxrdLine line = line := by
  constructor
  · rw [escapeMboxrdLine, h, if_neg Bool.false_ne_true]
  · rw [unescapeMboxrdLine, h, if_neg (fun hboth => Bool.false_ne_true hboth.2)]

/-- On the lines that a record can hold, quoting undoes what the reader does. -/
theorem escape_unescape (h : startsFrom line = false) :
    escapeMboxrdLine (unescapeMboxrdLine line) = line := by
  rw [unescapeMboxrdLine]
  split
  · next hquoted =>
    obtain ⟨hlength, hfrom⟩ := hquoted
    cases line with
    | nil => simp at hlength
    | cons c line =>
      obtain rfl : c = '>' := by
        by_contra hc
        simp [hc] at hlength
      have hfrom : startsFrom (line.dropWhile (· == '>')) = true := by simpa using hfrom
      simp [escapeMboxrdLine, hfrom]
  · next hplain =>
    rw [escapeMboxrdLine, if_neg]
    intro hfrom
    have hnone : line.takeWhile (· == '>') = [] := by
      rw [← List.length_eq_zero_iff]
      by_contra hlength
      exact hplain ⟨Nat.pos_of_ne_zero hlength, hfrom⟩
    have hdrop : line.dropWhile (· == '>') = line := by
      have := List.takeWhile_append_dropWhile (p := (· == '>')) (l := line)
      rwa [hnone, List.nil_append] at this
    rw [hdrop, h] at hfrom
    exact Bool.false_ne_true hfrom

theorem unescape_ne_nil (h : line ≠ []) : unescapeMboxrdLine line ≠ [] := by
  rw [unescapeMboxrdLine]
  split
  · next hquoted =>
    intro hnil
    cases line with
    | nil => exact h rfl
    | cons c line =>
      obtain rfl : line = [] := by simpa using hnil
      have hprefix := (startsFrom_iff.mp hquoted.2).length_le
      have hsuffix := (List.dropWhile_suffix (l := [c]) (· == '>')).length_le
      have hfive : "From ".toList.length = 5 := rfl
      simp only [List.length_singleton] at hsuffix
      omega
  · exact h

/-! A carriage return at the end changes nothing of this. -/

theorem startsFrom_concat_cr (line : List Char) : startsFrom (line ++ ['\r']) = startsFrom line := by
  rw [Bool.eq_iff_iff, startsFrom_iff, startsFrom_iff, List.prefix_concat_iff]
  constructor
  · rintro (h | h)
    · have := congrArg List.getLast? h
      simp at this
    · exact h
  · exact .inr

theorem startsFrom_stripCr (line : List Char) : startsFrom (stripCr line) = startsFrom line := by
  rw [stripCr]
  split
  · next h =>
    obtain ⟨cs, rfl⟩ := List.getLast?_eq_some_iff.mp h
    rw [List.dropLast_concat, startsFrom_concat_cr]
  · rfl

theorem startsFrom_dropWhile_concat_cr (line : List Char) :
    startsFrom ((line ++ ['\r']).dropWhile (· == '>')) =
      startsFrom (line.dropWhile (· == '>')) := by
  rw [List.dropWhile_append]
  split
  · next h =>
    rw [List.isEmpty_iff.mp h]
    rfl
  · exact startsFrom_concat_cr _

theorem stripCr_escape (line : List Char) :
    stripCr (escapeMboxrdLine line) = escapeMboxrdLine (stripCr line) := by
  by_cases h : line.getLast? = some '\r'
  · obtain ⟨cs, rfl⟩ := List.getLast?_eq_some_iff.mp h
    rw [stripCr_concat_cr, escapeMboxrdLine, escapeMboxrdLine, startsFrom_dropWhile_concat_cr]
    split
    · rw [← List.cons_append, stripCr_concat_cr]
    · rw [stripCr_concat_cr]
  · rw [stripCr_of_ne h, escapeMboxrdLine]
    split
    · next hfrom =>
      have hne : line ≠ [] := by
        rintro rfl
        cases hfrom
      rw [stripCr_cons (.inl hne), stripCr_of_ne h]
    · exact stripCr_of_ne h

end quoting

/-! The time of a record is one line. -/

/-- Neither line break in the text. -/
def Unbroken (s : String) : Prop := ∀ c ∈ s.toList, isBreak c = false

theorem Unbroken.append {s t : String} (hs : Unbroken s) (ht : Unbroken t) : Unbroken (s ++ t) := by
  intro c hc
  rw [String.toList_append, List.mem_append] at hc
  exact hc.elim (hs c) (ht c)

theorem isBreak_of_isDigit {c : Char} (h : c.isDigit = true) : isBreak c = false := by
  rw [isBreak, Bool.or_eq_false_iff, beq_eq_false_iff_ne, beq_eq_false_iff_ne]
  constructor
  · rintro rfl
    cases h
  · rintro rfl
    cases h

theorem unbroken_digits (n : Nat) : Unbroken (String.ofList (Nat.toDigits 10 n)) := by
  intro c hc
  rw [String.toList_ofList] at hc
  exact isBreak_of_isDigit (Nat.isDigit_of_mem_toDigits (by omega) (by omega) hc)

theorem unbroken_padded (width n : Nat) : Unbroken (padded width n) := by
  intro c hc
  rw [padded, String.toList_ofList, List.mem_append] at hc
  rcases hc with hc | hc
  · rw [(List.mem_replicate.mp hc).2]
    rfl
  · exact isBreak_of_isDigit (Nat.isDigit_of_mem_toDigits (by omega) (by omega) hc)

theorem unbroken_getD {names : List String} (h : ∀ name ∈ names, Unbroken name) (i : Nat) :
    Unbroken (names.getD i "") := by
  rw [List.getD_eq_getElem?_getD]
  cases hi : names[i]? with
  | none => exact fun c hc => absurd hc List.not_mem_nil
  | some name => exact h name (List.mem_of_getElem? hi)

instance (s : String) : Decidable (Unbroken s) := List.decidableBAll _ s.toList

theorem unbroken_formatYear (y : Int) : Unbroken (formatYear y) := by
  rw [formatYear]
  split
  · exact unbroken_padded _ _
  · apply Unbroken.append _ (unbroken_padded _ _)
    split
    · decide
    · decide

theorem unbroken_spacePadded (n : Nat) : Unbroken (spacePadded n) := by
  apply Unbroken.append _ (unbroken_digits n)
  split
  · decide
  · decide

theorem mboxAsctimeUtc_unbroken {secs : Int} {asctime : List Char}
    (h : mboxAsctimeUtc secs = some asctime) : ∀ c ∈ asctime, isBreak c = false := by
  obtain ⟨date, -, rfl⟩ := Option.map_eq_some_iff.mp h
  have hspace : Unbroken " " := by decide
  have hcolon : Unbroken ":" := by decide
  exact ((((((((((((unbroken_getD (by decide) _).append hspace).append
    (unbroken_getD (by decide) _)).append hspace).append (unbroken_spacePadded _)).append
    hspace).append (unbroken_padded _ _)).append hcolon).append (unbroken_padded _ _)).append
    hcolon).append (unbroken_padded _ _)).append hspace).append (unbroken_formatYear _)

theorem mboxAsctimeUtc_ne_nil {secs : Int} {asctime : List Char}
    (h : mboxAsctimeUtc secs = some asctime) : asctime ≠ [] := by
  obtain ⟨date, -, rfl⟩ := Option.map_eq_some_iff.mp h
  simp [String.toList_append]

/-! What is written, as lines. -/

/-- The `From ` line of a record. It is more than one line of text where the sender's handle
holds line feeds. -/
def fromLine (msg : MailMessage) (asctime : List Char) : List Char :=
  "From ".toList ++ envelopeSender msg ++ " ".toList ++ asctime

/-- The lines of the EML as they are written. -/
def bodyLines (eml : List Char) : List (List Char) :=
  ((trimBreaks eml).splitOn '\n').map (fun line => escapeMboxrdLine (stripCr line))

/-- The lines of a record after its first. -/
def restLines (msg : MailMessage) (eml asctime : List Char) : List (List Char) :=
  ((fromLine msg asctime).splitOn '\n').tail ++ bodyLines eml ++ [[]]

def recordLines (msg : MailMessage) (eml asctime : List Char) : List (List Char) :=
  ((fromLine msg asctime).splitOn '\n').headI :: restLines msg eml asctime

theorem written_append (ls ms : List (List Char)) : written (ls ++ ms) = written ls ++ written ms :=
  List.flatMap_append

theorem written_singleton (l : List Char) : written [l] = l ++ ['\n'] := List.flatMap_singleton _ l

theorem written_eq_joinLines : ∀ {ls : List (List Char)}, ls ≠ [] →
    written ls = joinLines ls ++ ['\n']
  | [], h => absurd rfl h
  | [l], _ => by simp [written, joinLines, List.intercalate]
  | l :: m :: ls, _ => by
    have ih : written (m :: ls) = joinLines (m :: ls) ++ ['\n'] := written_eq_joinLines (by simp)
    rw [joinLines_cons (by simp), List.append_assoc, List.cons_append, ← ih]
    simp [written]

theorem written_splitOn (cs : List Char) : written (cs.splitOn '\n') = cs ++ ['\n'] := by
  rw [written_eq_joinLines (List.splitOn_ne_nil _ _), joinLines_splitOn]

theorem writeMboxrdRecord_eq {msg : MailMessage} {eml record : List Char}
    (h : writeMboxrdRecord msg eml = some record) :
    ∃ asctime, mboxAsctimeUtc (msg.timestampUnixMs / 1000) = some asctime ∧
      record = written (recordLines msg eml asctime) := by
  obtain ⟨asctime, hasctime, rfl⟩ := Option.map_eq_some_iff.mp h
  refine ⟨asctime, hasctime, ?_⟩
  have hlines : recordLines msg eml asctime =
      (fromLine msg asctime).splitOn '\n' ++ bodyLines eml ++ [[]] := by
    obtain ⟨first, more, hsplit⟩ :=
      List.exists_cons_of_ne_nil (List.splitOn_ne_nil '\n' (fromLine msg asctime))
    rw [recordLines, restLines, hsplit]
    rfl
  rw [hlines, written_append, written_append, written_splitOn, ← written_singleton]
  rfl

/-! What is read. -/

/-- A line of an open record as the reader keeps it. -/
def readLine (line : List Char) : List Char := unescapeMboxrdLine (stripCr line)

section reading
variable {s : Splitting} {ls : List (List Char)}

theorem splitLine_from {line : List Char} (h : startsFrom line = true) :
    splitLine s line = ⟨s.closed, some []⟩ := by
  simp [splitLine, startsFrom_stripCr, h]

theorem splitLine_other {line : List Char} (h : startsFrom line = false) :
    splitLine s line = ⟨s.records, s.current.map (· ++ [readLine line])⟩ := by
  simp [splitLine, startsFrom_stripCr, h, readLine]

/-- Lines that start no record are kept in the open one. -/
theorem foldl_splitLine_other (h : ∀ line ∈ ls, startsFrom line = false) :
    ls.foldl splitLine s = ⟨s.records, s.current.map (· ++ ls.map readLine)⟩ := by
  induction ls generalizing s with
  | nil => simp
  | cons line ls ih =>
    rw [List.foldl_cons, splitLine_other (h line List.mem_cons_self),
      ih (fun line' hmem => h line' (List.mem_cons_of_mem _ hmem))]
    simp [Function.comp_def]

theorem length_closed_splitLine (line : List Char) :
    (splitLine s line).closed.length = s.closed.length + if startsFrom line then 1 else 0 := by
  cases h : startsFrom line with
  | true => simp [splitLine_from h, Splitting.closed, Nat.add_assoc]
  | false =>
    rw [splitLine_other h]
    cases hcurrent : s.current with
    | none => simp [Splitting.closed, hcurrent]
    | some cur => simp [Splitting.closed, hcurrent]

/-- As many records are read as lines start one. -/
theorem length_closed_foldl (ls : List (List Char)) (s : Splitting) :
    (ls.foldl splitLine s).closed.length = s.closed.length + ls.countP startsFrom := by
  induction ls generalizing s with
  | nil => simp
  | cons line ls ih =>
    rw [List.foldl_cons, ih, length_closed_splitLine, List.countP_cons]
    omega

/-- An empty line at the end of a record is not of it. -/
theorem joinEmlLines_concat_nil (lines : List (List Char)) :
    joinEmlLines (lines ++ [[]]) = joinEmlLines lines := by
  rcases eq_or_ne lines [] with rfl | hne
  · rfl
  · rw [joinEmlLines, joinEmlLines, joinLines_concat hne,
      List.rdropWhile_concat_pos _ _ _ (by simp)]

theorem closed_splitLine_nil (s : Splitting) : (splitLine s []).closed = s.closed := by
  rw [splitLine_other rfl]
  cases hcurrent : s.current with
  | none => simp [Splitting.closed, hcurrent]
  | some cur =>
    have hblank : readLine [] = [] := rfl
    simp [Splitting.closed, hcurrent, hblank, joinEmlLines_concat_nil]

/-- The first line of a record starts it. -/
theorem startsFrom_headI (msg : MailMessage) (asctime : List Char) :
    startsFrom ((fromLine msg asctime).splitOn '\n').headI = true := by
  have hfrom : '\n' ∉ "From ".toList := by simp
  obtain ⟨p, ps, hps⟩ := List.exists_cons_of_ne_nil
    (List.splitOn_ne_nil '\n' (envelopeSender msg ++ (" ".toList ++ asctime)))
  rw [fromLine, List.append_assoc, List.append_assoc, Text.splitOn_append_of_notMem _ hfrom, hps]
  exact startsFrom_iff.mpr (List.prefix_append _ _)

/-- The lines of a sender's handle after its first. -/
def senderLines (msg : MailMessage) (asctime : List Char) : List (List Char) :=
  ((fromLine msg asctime).splitOn '\n').tail

theorem startsFrom_bodyLines {eml line : List Char} (h : line ∈ bodyLines eml) :
    startsFrom line = false := by
  obtain ⟨line, -, rfl⟩ := List.mem_map.mp h
  exact startsFrom_escape _

theorem countP_recordLines (msg : MailMessage) (eml asctime : List Char) :
    (recordLines msg eml asctime).countP startsFrom =
      (senderLines msg asctime).countP startsFrom + 1 := by
  have hbody : (bodyLines eml).countP startsFrom = 0 := by
    rw [List.countP_eq_zero]
    intro line hline
    rw [startsFrom_bodyLines hline]
    exact Bool.false_ne_true
  rw [recordLines, List.countP_cons_of_pos (startsFrom_headI msg asctime), restLines,
    List.countP_append, List.countP_append, hbody]
  rfl

/-- What is read of one record. -/
def readRecord (msg : MailMessage) (eml asctime : List Char) : List Char :=
  joinEmlLines ((restLines msg eml asctime).map readLine)

theorem foldl_recordLines {msg : MailMessage} {asctime : List Char} (eml : List Char)
    (h : ∀ line ∈ senderLines msg asctime, startsFrom line = false) :
    (recordLines msg eml asctime).foldl splitLine s =
      ⟨s.closed, some ((restLines msg eml asctime).map readLine)⟩ := by
  rw [recordLines, List.foldl_cons, splitLine_from (startsFrom_headI msg asctime)]
  have hrest : ∀ line ∈ restLines msg eml asctime, startsFrom line = false := by
    intro line hline
    rcases List.mem_append.mp hline with hline | hline
    · rcases List.mem_append.mp hline with hline | hline
      · exact h line hline
      · exact startsFrom_bodyLines hline
    · obtain rfl := List.mem_singleton.mp hline
      rfl
  rw [foldl_splitLine_other hrest, Option.map_some, List.nil_append]

end reading

/-! Records one after another. -/

/-- The time a record is written with. -/
def asctimeOf (msg : MailMessage) : List Char :=
  (mboxAsctimeUtc (msg.timestampUnixMs / 1000)).getD []

def linesOf (r : MailMessage × List Char) : List (List Char) := recordLines r.1 r.2 (asctimeOf r.1)

theorem writeRecords_eq : ∀ {rs : List (MailMessage × List Char)} {text : List Char},
    writeRecords rs = some text →
      text = written (rs.flatMap linesOf) ∧
        ∀ r ∈ rs, mboxAsctimeUtc (r.1.timestampUnixMs / 1000) = some (asctimeOf r.1)
  | [], text, h => by
    obtain rfl : [] = text := by simpa [writeRecords] using h
    exact ⟨rfl, fun r hr => absurd hr List.not_mem_nil⟩
  | r :: rs, text, h => by
    rw [writeRecords, Option.bind_eq_bind, Option.bind_eq_some_iff] at h
    obtain ⟨record, hrecord, h⟩ := h
    obtain ⟨others, hothers, h⟩ := Option.bind_eq_some_iff.mp h
    obtain rfl : record ++ others = text := by simpa using h
    obtain ⟨asctime, hasctime, rfl⟩ := writeMboxrdRecord_eq hrecord
    obtain ⟨rfl, hrest⟩ := writeRecords_eq hothers
    have hof : asctime = asctimeOf r.1 := by rw [asctimeOf, hasctime, Option.getD_some]
    refine ⟨?_, ?_⟩
    · rw [List.flatMap_cons, written_append, linesOf, hof]
    · intro r' hr'
      rcases List.mem_cons.mp hr' with rfl | hr'
      · rw [hasctime, hof]
      · exact hrest r' hr'

theorem isLine_escape {line : List Char} (h : IsLine line) : IsLine (escapeMboxrdLine line) := by
  rw [escapeMboxrdLine]
  split
  · intro hmem
    exact h (List.mem_of_ne_of_mem (by decide) hmem)
  · exact h

theorem isLine_bodyLines {eml line : List Char} (h : line ∈ bodyLines eml) : IsLine line := by
  obtain ⟨line, hline, rfl⟩ := List.mem_map.mp h
  exact isLine_escape (isLine_of_mem_splitOn hline).stripCr

theorem isLine_linesOf {r : MailMessage × List Char} {line : List Char} (h : line ∈ linesOf r) :
    IsLine line := by
  obtain ⟨first, more, hsplit⟩ :=
    List.exists_cons_of_ne_nil (List.splitOn_ne_nil '\n' (fromLine r.1 (asctimeOf r.1)))
  have hfrom : ∀ line ∈ first :: more, IsLine line := by
    rw [← hsplit]
    exact fun line hline => isLine_of_mem_splitOn hline
  rw [linesOf, recordLines, restLines, hsplit, List.headI_cons, List.tail_cons] at h
  rcases List.mem_cons.mp h with rfl | h
  · exact hfrom _ List.mem_cons_self
  rcases List.mem_append.mp h with h | h
  · rcases List.mem_append.mp h with h | h
    · exact hfrom _ (List.mem_cons_of_mem _ h)
    · exact isLine_bodyLines h
  · obtain rfl := List.mem_singleton.mp h
    exact List.not_mem_nil

/-- The text is read line by line, and the line after the last line feed says nothing. -/
theorem splitMboxrd_written {lines : List (List Char)} (h : ∀ line ∈ lines, IsLine line) :
    splitMboxrd (written lines) = (lines.foldl splitLine ⟨[], none⟩).closed := by
  rw [splitMboxrd, splitOn_written h, List.foldl_append, List.foldl_cons, List.foldl_nil,
    closed_splitLine_nil]

theorem countP_flatMap_linesOf (rs : List (MailMessage × List Char)) :
    (rs.flatMap linesOf).countP startsFrom =
      (rs.map (fun r => (senderLines r.1 (asctimeOf r.1)).countP startsFrom)).sum + rs.length := by
  induction rs with
  | nil => rfl
  | cons r rs ih =>
    rw [List.flatMap_cons, List.countP_append, ih, linesOf, countP_recordLines, List.map_cons,
      List.sum_cons, List.length_cons]
    omega

theorem closed_foldl_linesOf {rs : List (MailMessage × List Char)}
    (h : ∀ r ∈ rs, ∀ line ∈ senderLines r.1 (asctimeOf r.1), startsFrom line = false)
    (s : Splitting) :
    ((rs.flatMap linesOf).foldl splitLine s).closed =
      s.closed ++ rs.map (fun r => readRecord r.1 r.2 (asctimeOf r.1)) := by
  induction rs generalizing s with
  | nil => simp
  | cons r rs ih =>
    rw [List.flatMap_cons, List.foldl_append, ih (fun r' hr' => h r' (List.mem_cons_of_mem _ hr')),
      linesOf, foldl_recordLines _ (h r List.mem_cons_self), List.map_cons]
    simp [Splitting.closed, readRecord]

/-! One record. -/

theorem IsLine.readLine {line : List Char} (h : IsLine line) : IsLine (readLine line) := by
  rw [Mail.readLine, unescapeMboxrdLine]
  split
  · exact fun hmem => h.stripCr (List.mem_of_mem_drop hmem)
  · exact h.stripCr

/-- The writer takes one carriage return off a line's end and the reader one more. -/
theorem map_readLine_bodyLines (eml : List Char) :
    (bodyLines eml).map readLine =
      ((trimBreaks eml).splitOn '\n').map (fun line => stripCr (stripCr line)) := by
  rw [bodyLines, List.map_map]
  apply List.map_congr_left
  intro line _
  rw [Function.comp_apply, readLine, stripCr_escape, unescape_escape]

theorem stripCr_eq_self_iff (line : List Char) :
    stripCr line = line ↔ line.getLast? ≠ some '\r' := by
  constructor
  · intro h hlast
    obtain ⟨cs, rfl⟩ := List.getLast?_eq_some_iff.mp hlast
    rw [stripCr_concat_cr] at h
    simpa using congrArg List.length h
  · exact stripCr_of_ne

theorem endsInTwo_iff (cs : List Char) :
    ['\r', '\r'] <:+ cs ++ ['\r'] ↔ cs.getLast? = some '\r' := by
  constructor
  · rintro ⟨t, ht⟩
    have hcut : (t ++ ['\r']) ++ ['\r'] = cs ++ ['\r'] := by simpa using ht
    rw [← List.append_cancel_right hcut]
    simp
  · intro h
    obtain ⟨ds, rfl⟩ := List.getLast?_eq_some_iff.mp h
    exact ⟨ds, by simp⟩

theorem stripCr_stripCr_iff (line : List Char) :
    stripCr (stripCr line) = stripCr line ↔ ¬ ['\r', '\r'] <:+ line := by
  by_cases hlast : line.getLast? = some '\r'
  · obtain ⟨cs, rfl⟩ := List.getLast?_eq_some_iff.mp hlast
    rw [stripCr_concat_cr, stripCr_eq_self_iff, endsInTwo_iff]
  · rw [stripCr_of_ne hlast, stripCr_of_ne hlast]
    simp only [true_iff]
    rintro ⟨t, rfl⟩
    exact hlast (by simp)

/-- A text that ends in no line feed has a last line that ends as it does. -/
theorem splitOn_concat (cs : List Char) {c : Char} (hc : c ≠ '\n') :
    ∃ init last, (cs ++ [c]).splitOn '\n' = init ++ [last ++ [c]] := by
  have hjoin := joinLines_splitOn (cs ++ [c])
  rcases List.eq_nil_or_concat' ((cs ++ [c]).splitOn '\n') with h | ⟨init, line, h⟩
  · exact absurd h (List.splitOn_ne_nil _ _)
  rw [h] at hjoin ⊢
  rcases List.eq_nil_or_concat' line with rfl | ⟨last, d, rfl⟩
  · rcases eq_or_ne init [] with rfl | hne
    · simp [joinLines, List.intercalate] at hjoin
    · rw [joinLines_concat hne] at hjoin
      have := congrArg List.getLast? hjoin
      simp at this
      exact absurd this.symm hc
  · refine ⟨init, last, ?_⟩
    have hlast := congrArg List.getLast? hjoin
    rcases eq_or_ne init [] with rfl | hne
    · simp [joinLines, List.intercalate] at hlast
      rw [hlast]
    · rw [joinLines_concat hne] at hlast
      simp [List.getLast?_append, List.getLast?_cons] at hlast
      rw [hlast]

theorem joinEmlLines_of_last {lines : List (List Char)} {line : List Char}
    (h : ∀ l ∈ lines ++ [line], IsLine l) (hne : line ≠ []) :
    joinEmlLines (lines ++ [line]) = joinLines (lines ++ [line]) ++ ['\n'] := by
  rw [joinEmlLines, rdropWhile_joinLines h,
    List.rdropWhile_concat_neg _ _ _ (by simpa using hne)]

theorem joinLines_concat_ne_nil (lines : List (List Char)) {line : List Char} (h : line ≠ []) :
    joinLines (lines ++ [line]) ≠ [] := by
  rcases eq_or_ne lines [] with rfl | hlines
  · simpa [joinLines, List.intercalate] using h
  · rw [joinLines_concat hlines]
    simp

theorem isBreak_of_trimBreaks {eml cs : List Char} {c : Char} (h : trimBreaks eml = cs ++ [c]) :
    isBreak c = false := by
  have h : eml.rdropWhile isBreak = cs ++ [c] := h
  have hlast := List.rdropWhile_last_not isBreak eml (by simp [h])
  simpa [h] using hlast

/-- The last of a sender's lines ends in the time, so it is not empty. -/
theorem senderLines_cases (msg : MailMessage) {asctime : List Char} (hne : asctime ≠ [])
    (hunbroken : ∀ c ∈ asctime, isBreak c = false) :
    senderLines msg asctime = [] ∨
      ∃ init line, senderLines msg asctime = init ++ [line] ∧ readLine line ≠ [] := by
  obtain ⟨before, c, rfl⟩ := (List.eq_nil_or_concat' asctime).resolve_left hne
  have hc := hunbroken c (by simp)
  rw [isBreak, Bool.or_eq_false_iff, beq_eq_false_iff_ne, beq_eq_false_iff_ne] at hc
  have hline : fromLine msg (before ++ [c]) =
      ("From ".toList ++ envelopeSender msg ++ " ".toList ++ before) ++ [c] := by simp [fromLine]
  obtain ⟨init, last, hsplit⟩ := splitOn_concat ("From ".toList ++ envelopeSender msg ++
    " ".toList ++ before) hc.2
  rw [senderLines, hline, hsplit]
  cases init with
  | nil => exact .inl rfl
  | cons first init =>
    refine .inr ⟨init, last ++ [c], rfl, ?_⟩
    rw [readLine, stripCr_of_ne (by simpa using hc.1)]
    exact unescape_ne_nil (by simp)

theorem isLine_senderLines {msg : MailMessage} {asctime line : List Char}
    (h : line ∈ senderLines msg asctime) : IsLine line :=
  isLine_of_mem_splitOn (List.mem_of_mem_tail h)

/-- **One record comes back as its EML** when its `From ` line is one line and no line of the
EML ends in two carriage returns, and only then. -/
theorem readRecord_eq_iff {msg : MailMessage} {eml asctime : List Char} (hne : asctime ≠ [])
    (hunbroken : ∀ c ∈ asctime, isBreak c = false) :
    readRecord msg eml asctime = unified eml ↔ senderLines msg asctime = [] ∧ SingleCr eml := by
  have hsender : ∀ l ∈ (senderLines msg asctime).map readLine, IsLine l := by
    intro l hl
    obtain ⟨line, hline, rfl⟩ := List.mem_map.mp hl
    exact IsLine.readLine (isLine_senderLines hline)
  have hbody : ∀ l ∈ (bodyLines eml).map readLine, IsLine l := by
    intro l hl
    obtain ⟨line, hline, rfl⟩ := List.mem_map.mp hl
    exact IsLine.readLine (isLine_bodyLines hline)
  have hrecord : readRecord msg eml asctime =
      joinEmlLines ((senderLines msg asctime).map readLine ++ (bodyLines eml).map readLine) := by
    rw [readRecord, restLines, List.map_append, List.map_append]
    exact joinEmlLines_concat_nil _
  rw [hrecord, SingleCr, unified]
  rw [map_readLine_bodyLines] at hbody ⊢
  rcases List.eq_nil_or_concat' (trimBreaks eml) with hnil | ⟨cs, c, htrim⟩
  · -- an EML of line breaks alone
    have hempty : joinEmlLines ((senderLines msg asctime).map readLine ++ [[]]) = ['\n'] ↔
        senderLines msg asctime = [] := by
      rw [joinEmlLines_concat_nil]
      rcases senderLines_cases msg hne hunbroken with hlines | ⟨init, line, hlines, hline⟩
      · simp [hlines, joinEmlLines, joinLines]
      · rw [hlines, List.map_append, List.map_singleton] at hsender ⊢
        rw [joinEmlLines_of_last hsender hline]
        simp only [List.append_eq_nil_iff, List.cons_ne_nil, and_false, iff_false]
        intro hjoin
        exact joinLines_concat_ne_nil _ hline (by simpa using hjoin)
    rw [hnil]
    simpa [stripCr, crlfToLf] using hempty
  · have hc := isBreak_of_trimBreaks htrim
    rw [isBreak, Bool.or_eq_false_iff, beq_eq_false_iff_ne, beq_eq_false_iff_ne] at hc
    have hcr : (trimBreaks eml).getLast? ≠ some '\r' := by simpa [htrim] using hc.1
    obtain ⟨init, last, hsplit⟩ := splitOn_concat cs hc.2
    rw [← htrim] at hsplit
    have hstay : stripCr (stripCr (last ++ [c])) = last ++ [c] := by
      have hlast : (last ++ [c]).getLast? ≠ some '\r' := by simpa using hc.1
      rw [stripCr_of_ne hlast, stripCr_of_ne hlast]
    have hlines : ∀ l ∈ (senderLines msg asctime).map readLine ++
        ((trimBreaks eml).splitOn '\n').map (fun line => stripCr (stripCr line)), IsLine l :=
      fun l hl => (List.mem_append.mp hl).elim (hsender l) (hbody l)
    have hjoin : joinEmlLines ((senderLines msg asctime).map readLine ++
        ((trimBreaks eml).splitOn '\n').map (fun line => stripCr (stripCr line))) =
        joinLines ((senderLines msg asctime).map readLine ++
          ((trimBreaks eml).splitOn '\n').map (fun line => stripCr (stripCr line))) ++ ['\n'] := by
      rw [hsplit, List.map_append, List.map_singleton, hstay, ← List.append_assoc] at hlines ⊢
      exact joinEmlLines_of_last hlines (by simp)
    have hstripped : ∀ l ∈ ((trimBreaks eml).splitOn '\n').map stripCr, IsLine l := by
      intro l hl
      obtain ⟨line, hline, rfl⟩ := List.mem_map.mp hl
      exact (isLine_of_mem_splitOn hline).stripCr
    rw [hjoin, crlfToLf_eq hcr, List.append_left_inj]
    constructor
    · intro heq
      have hsame := joinLines_inj hlines hstripped (by simp) (by simp) heq
      have hnone : senderLines msg asctime = [] := by
        have := congrArg List.length hsame
        rw [List.length_append, List.length_map, List.length_map, List.length_map] at this
        exact List.length_eq_zero_iff.mp (by omega)
      rw [hnone, List.map_nil, List.nil_append, List.map_inj_left] at hsame
      exact ⟨hnone, fun line hline => (stripCr_stripCr_iff line).mp (hsame line hline)⟩
    · rintro ⟨hnone, hsingle⟩
      rw [hnone, List.map_nil, List.nil_append]
      congr 1
      exact List.map_congr_left fun line hline => (stripCr_stripCr_iff line).mpr (hsingle line hline)

/-! The mailbox. -/

theorem newline_mem_envelopeSender (msg : MailMessage) :
    '\n' ∈ envelopeSender msg ↔ ¬ msg.OneLine := by
  rw [envelopeSender, MailMessage.OneLine]
  generalize envelopeHandle msg = handle
  split
  · next hat =>
    have hat : '@' ∈ handle := List.contains_iff_mem.mp hat
    simp only [hat, true_implies, not_not, List.mem_append, List.mem_map]
    constructor
    · rintro (⟨c, hc, hnewline⟩ | hnewline)
      · split at hnewline
        · cases hnewline
        · rwa [← hnewline]
      · simp at hnewline
    · intro hmem
      exact .inl ⟨'\n', hmem, rfl⟩
  · next hat =>
    have hat : '@' ∉ handle := fun hmem => hat (List.contains_iff_mem.mpr hmem)
    simp only [hat, false_implies, not_true_eq_false, iff_false]
    split
    · next haddress =>
      rw [List.mem_append]
      rintro (hmem | hmem)
      · have := List.all_eq_true.mp haddress '\n' hmem
        cases this
      · simp at hmem
    · simp

theorem splitOn_tail_eq_nil_iff (cs : List Char) : (cs.splitOn '\n').tail = [] ↔ '\n' ∉ cs := by
  constructor
  · intro h
    obtain ⟨line, more, hsplit⟩ := List.exists_cons_of_ne_nil (List.splitOn_ne_nil '\n' cs)
    have hjoin := joinLines_splitOn cs
    rw [hsplit, List.tail_cons] at h
    rw [hsplit, h] at hjoin
    have hline : cs = line := by simpa [joinLines, List.intercalate] using hjoin.symm
    rw [hline]
    exact isLine_of_mem_splitOn (hsplit ▸ List.mem_cons_self)
  · intro h
    rw [List.splitOn_eq_singleton h]
    rfl

theorem senderLines_eq_nil_iff {msg : MailMessage} {asctime : List Char}
    (hunbroken : ∀ c ∈ asctime, isBreak c = false) :
    senderLines msg asctime = [] ↔ msg.OneLine := by
  have htime : '\n' ∉ asctime := fun hmem => Bool.false_ne_true (hunbroken _ hmem).symm
  rw [senderLines, splitOn_tail_eq_nil_iff, ← not_iff_not, not_not, ← newline_mem_envelopeSender]
  simp [fromLine, htime]

/-- Records written one after another come back as their EMLs when every sender's handle and
every line of the EMLs allows it, and only then. -/
theorem splitMboxrd_iff {rs : List (MailMessage × List Char)} {text : List Char}
    (h : writeRecords rs = some text) :
    splitMboxrd text = rs.map (fun r => unified r.2) ↔ ∀ r ∈ rs, r.1.OneLine ∧ SingleCr r.2 := by
  obtain ⟨rfl, htime⟩ := writeRecords_eq h
  have hrecord : ∀ r ∈ rs, (readRecord r.1 r.2 (asctimeOf r.1) = unified r.2 ↔
      r.1.OneLine ∧ SingleCr r.2) := by
    intro r hr
    have hunbroken := mboxAsctimeUtc_unbroken (htime r hr)
    rw [readRecord_eq_iff (mboxAsctimeUtc_ne_nil (htime r hr)) hunbroken,
      senderLines_eq_nil_iff hunbroken]
  rw [splitMboxrd_written (by
    intro line hline
    obtain ⟨r, -, hr⟩ := List.mem_flatMap.mp hline
    exact isLine_linesOf hr)]
  constructor
  · intro hsplit
    -- as many records as messages: no line of a sender starts one
    have hcount := congrArg List.length hsplit
    rw [length_closed_foldl, countP_flatMap_linesOf, List.length_map] at hcount
    have hsum : (rs.map (fun r => (senderLines r.1 (asctimeOf r.1)).countP startsFrom)).sum = 0 := by
      simp only [Splitting.closed, List.length_nil, Option.map_none, Option.toList_none,
        List.append_nil] at hcount
      omega
    have hnone : ∀ r ∈ rs, ∀ line ∈ senderLines r.1 (asctimeOf r.1), startsFrom line = false := by
      intro r hr line hline
      have hzero := List.sum_eq_zero_iff.mp hsum _ (List.mem_map_of_mem hr)
      simpa using List.countP_eq_zero.mp hzero line hline
    rw [closed_foldl_linesOf hnone] at hsplit
    have hsame : rs.map (fun r => readRecord r.1 r.2 (asctimeOf r.1)) =
        rs.map (fun r => unified r.2) := hsplit
    intro r hr
    exact (hrecord r hr).mp (List.map_inj_left.mp hsame r hr)
  · intro hall
    have hnone : ∀ r ∈ rs, ∀ line ∈ senderLines r.1 (asctimeOf r.1), startsFrom line = false := by
      intro r hr line hline
      rw [(senderLines_eq_nil_iff (mboxAsctimeUtc_unbroken (htime r hr))).mpr (hall r hr).1] at hline
      exact absurd hline List.not_mem_nil
    rw [closed_foldl_linesOf hnone]
    exact List.map_congr_left fun r hr => (hrecord r hr).mpr (hall r hr)

/-- **mboxrd records split back.** Of records written one after another as many come back, each
equal to its EML with every CRLF turned into LF and its trailing line breaks replaced by one,
exactly when no sender's handle with an `@` holds a line feed and no line of the EMLs ends in two
carriage returns. Quoting a line is undone by unquoting it, a quoted line starts no record, and
a line that is not of the form `>*From ` is left alone. -/
theorem records_split_back {rs : List (MailMessage × List Char)} {text : List Char}
    (h : writeRecords rs = some text) :
    (splitMboxrd text = rs.map (fun r => unified r.2) ↔ ∀ r ∈ rs, r.1.OneLine ∧ SingleCr r.2) ∧
      ∀ line, unescapeMboxrdLine (escapeMboxrdLine line) = line ∧
        startsFrom (escapeMboxrdLine line) = false ∧
        (startsFrom line = false → escapeMboxrdLine (unescapeMboxrdLine line) = line) ∧
        (startsFrom (line.dropWhile (· == '>')) = false →
          escapeMboxrdLine line = line ∧ unescapeMboxrdLine line = line) :=
  ⟨splitMboxrd_iff h, fun line => ⟨unescape_escape line, startsFrom_escape line, escape_unescape,
    escape_of_not⟩⟩

/-- A sender's handle with an `@` and a line feed. -/
def brokenSender : MailMessage :=
  ⟨"c1".toList, "individual".toList, [], "me".toList, .incoming, some "a@b\nFrom c".toList, 0⟩

def plainSender : MailMessage := { brokenSender with senderHandle := some "+15555550101".toList }

def quotedEml : List Char := "a\r\n>From b\r\nFrom c\r\n\r\n".toList

/-- Two records. The first ends in a blank line and the second begins with a `From ` line. -/
def twoRecords : List (MailMessage × List Char) :=
  [(plainSender, quotedEml),
    ({ plainSender with senderHandle := some "a@b".toList }, "From me\r\nhi".toList)]

theorem records_split_back_plain :
    splitMboxrd ((writeRecords twoRecords).getD []) = twoRecords.map fun r => unified r.2 := by
  have hwritten : (writeRecords twoRecords).isSome = true := by decide +kernel
  obtain ⟨text, htext⟩ := Option.isSome_iff_exists.mp hwritten
  have hgood : ∀ r ∈ twoRecords, r.1.OneLine ∧ SingleCr r.2 := by decide +kernel
  rw [htext, Option.getD_some]
  exact (records_split_back htext).1.mpr hgood

/-- One message with such a sender is read as two, and a line that ends in two carriage returns
loses both. -/
theorem one_message_reads_as_two :
    (writeRecords [(brokenSender, "hi".toList)]).map splitMboxrd =
        some ["\n".toList, "hi\n".toList] ∧
      (writeRecords [(brokenSender, "hi".toList)]).map splitMboxrd ≠ some [unified "hi".toList] ∧
      (writeRecords [(plainSender, "a\r\r\nb".toList)]).map splitMboxrd = some ["a\nb\n".toList] ∧
      (writeRecords [(plainSender, "a\r\r\nb".toList)]).map splitMboxrd ≠
        some [unified "a\r\r\nb".toList] := by
  decide +kernel

end MessageCrate.Mail

import MessageCrate.Lib.Text

/- Typed search values (`crates/server/server/src/search/value.rs`).

   A value is text, a prefix, an id, a keyword, a choice, a date filter, a count or a
   size. Dates are spans of days, resolved against `today`, and a day's bound is the
   instant it begins in the account's zone.

   The calendar is chrono's proleptic Gregorian one: a `NaiveDate` is a day counted from
   1970-01-01, inside chrono's range. A `Tz` is what `chrono_tz` answers for a zone; its
   readings and instants are counted in nanoseconds from 1970. A size is read as Rust
   reads an `f64`: rounded to 53 bits, ties to even.

   Correspondence (Rust ↔ Lean):
     `NaiveDate::from_ymd_opt`                 ↔ `NaiveDate.fromYmdOpt`
     `checked_add_days`, `checked_sub_days`    ↔ `NaiveDate.addDays`
     `zone.from_local_datetime(..).earliest()` ↔ `Tz.earliest`
     `t.with_timezone(&zone).naive_local()`    ↔ `Tz.naiveLocal`
     `first_instant_at_or_after`'s loop        ↔ `searchGap`
     `str::parse::<f64>`                       ↔ `parseDecimal` and `nearestF64` -/
namespace MessageCrate
open Text

/-! Days. -/

/-- The day number of a Gregorian date, from 1970-01-01. -/
def daysFromCivil (y m d : Int) : Int :=
  let y' := if m ≤ 2 then y - 1 else y
  let era := y' / 400
  let yearOfEra := y' - era * 400
  let dayOfYear := (153 * (m + (if 2 < m then -3 else 9)) + 2) / 5 + d - 1
  let dayOfEra := yearOfEra * 365 + yearOfEra / 4 - yearOfEra / 100 + dayOfYear
  era * 146097 + dayOfEra - 719468

/-- The Gregorian date of a day number. -/
def civilFromDays (day : Int) : Int × Int × Int :=
  let z := day + 719468
  let era := z / 146097
  let dayOfEra := z - era * 146097
  let yearOfEra := (dayOfEra - dayOfEra / 1460 + dayOfEra / 36524 - dayOfEra / 146096) / 365
  let dayOfYear := dayOfEra - (365 * yearOfEra + yearOfEra / 4 - yearOfEra / 100)
  let mp := (5 * dayOfYear + 2) / 153
  let d := dayOfYear - (153 * mp + 2) / 5 + 1
  let m := if mp < 10 then mp + 3 else mp - 9
  let y := yearOfEra + era * 400
  (if m ≤ 2 then y + 1 else y, m, d)

def isLeapYear (y : Int) : Bool := y % 4 == 0 && (y % 100 != 0 || y % 400 == 0)

def daysInMonth (y m : Int) : Int :=
  if m = 2 then (if isLeapYear y then 29 else 28)
  else if m = 4 ∨ m = 6 ∨ m = 9 ∨ m = 11 then 30 else 31

/-- `NaiveDate::MIN` and `NaiveDate::MAX`, as day numbers. -/
def minDay : Int := daysFromCivil (-262143) 1 1
def maxDay : Int := daysFromCivil 262142 12 31

/-- A calendar day in chrono's range. -/
structure NaiveDate where
  day : Int
  inRange : minDay ≤ day ∧ day ≤ maxDay

namespace NaiveDate

def ofDay (day : Int) : Option NaiveDate :=
  if h : minDay ≤ day ∧ day ≤ maxDay then some ⟨day, h⟩ else none

def year (d : NaiveDate) : Int := (civilFromDays d.day).1
def month (d : NaiveDate) : Int := (civilFromDays d.day).2.1
def dayOfMonth (d : NaiveDate) : Int := (civilFromDays d.day).2.2

def fromYmdOpt (y m d : Int) : Option NaiveDate :=
  if 1 ≤ m ∧ m ≤ 12 ∧ 1 ≤ d ∧ d ≤ daysInMonth y m then ofDay (daysFromCivil y m d) else none

/-- `n` days later, or earlier for a negative `n`. -/
def addDays (d : NaiveDate) (n : Int) : Option NaiveDate := ofDay (d.day + n)

end NaiveDate

example : civilFromDays (daysFromCivil 2024 2 29) = (2024, 2, 29) := by decide

/-- A comparison or range on an ordered scalar. -/
inductive Cmp where
  | eq (v : Int)
  | gt (v : Int)
  | gte (v : Int)
  | lt (v : Int)
  | lte (v : Int)
  | range (a b : Int)
  deriving DecidableEq, Repr

/-- The days a date value names: `start` inclusive, `stop` (the source's `end`) exclusive. -/
structure DateSpan where
  start : NaiveDate
  stop : NaiveDate

/-- A date filter with its bounds resolved to calendar days. -/
inductive DateCmp where
  | within (span : DateSpan)
  | gte (day : NaiveDate)
  | gt (day : NaiveDate)
  | lt (day : NaiveDate)
  | lte (day : NaiveDate)

/-- One parsed value, typed by the word it belongs to. -/
inductive Value where
  | text (t : String)
  | pre (p : String)
  | id (id : Int)
  | keyword (kw : String)
  | choice (c : String)
  | date (cmp : DateCmp)
  | count (cmp : Cmp)
  | size (cmp : Cmp)

/-! Time zones. -/

/-- What a time zone answers. Readings of its clock and instants are nanoseconds. -/
structure Tz where
  earliest : Int → Option Int
  naiveLocal : Int → Int

def nanosPerSecond : Int := 1000000000
def nanosPerDay : Int := 86400 * nanosPerSecond

/-- The end of a gap that holds the reading `loc`: the loop narrows `before`, where the
clock shows an earlier time, and `after`, where it shows that time or a later one, to one
second. Each turn halves their distance of two days, so eighteen turns are enough. -/
def searchGap (zone : Tz) (loc : Int) : Nat → Int → Int → Int
  | 0, _, after => after
  | turns + 1, before, after =>
    if nanosPerSecond < after - before then
      let mid := before + (after - before) / 2
      if loc ≤ zone.naiveLocal mid then searchGap zone loc turns before mid
      else searchGap zone loc turns mid after
    else after

/-- The first instant whose clock reading in `zone` is `loc` or later. -/
def firstInstantAtOrAfter (zone : Tz) (loc : Int) : Int :=
  match zone.earliest loc with
  | some t => t
  | none => searchGap zone loc 18 (loc - nanosPerDay) (loc + nanosPerDay)

/-- `n` in at least `width` digits. -/
def padded (width n : Nat) : String :=
  let digits := Nat.toDigits 10 n
  String.ofList (List.replicate (width - digits.length) '0' ++ digits)

/-- `to_rfc3339_opts(SecondsFormat::Secs, true)` of an instant. -/
def rfc3339 (instant : Int) : String :=
  let (y, m, d) := civilFromDays (instant / nanosPerDay)
  let secs := (instant % nanosPerDay / nanosPerSecond).toNat
  let year :=
    if 0 ≤ y ∧ y ≤ 9999 then padded 4 y.toNat
    else (if y < 0 then "-" else "+") ++ padded 4 y.natAbs
  year ++ "-" ++ padded 2 m.toNat ++ "-" ++ padded 2 d.toNat ++ "T" ++
    padded 2 (secs / 3600) ++ ":" ++ padded 2 (secs / 60 % 60) ++ ":" ++
    padded 2 (secs % 60) ++ "Z"

/-- The instant `day` begins in `zone`, as the text the server stores; `none` after year
9999, whose text would sort before every stored timestamp. -/
def utcInstant (zone : Tz) (day : NaiveDate) : Option String :=
  let midnight := day.day * nanosPerDay
  let instant := firstInstantAtOrAfter zone midnight
  if (civilFromDays (instant / nanosPerDay)).1 ≤ 9999 then some (rfc3339 instant) else none

/-! Date values. -/

/-- The first day of the month after `(y, m)`. -/
def firstOfNextMonth (y m : Int) : Option NaiveDate :=
  if m = 12 then NaiveDate.fromYmdOpt (y + 1) 1 1 else NaiveDate.fromYmdOpt y (m + 1) 1

/-- `today` moved back `months` months, clamped to the last day of the target month. -/
def shiftMonthsBack (today : NaiveDate) (months : Int) : Option NaiveDate := do
  let total := today.year * 12 + today.month - 1 - months
  let year := total / 12
  let month := total % 12 + 1
  let next ← firstOfNextMonth year month
  let last ← next.addDays (-1)
  NaiveDate.fromYmdOpt year month (min today.dayOfMonth last.dayOfMonth)

def allDigits (cs : List Char) : Bool := !cs.isEmpty && cs.all Char.isDigit

/-- The number a run of digits names. -/
def digitsValue (cs : List Char) : Nat := cs.foldl (fun n c => 10 * n + (c.toNat - 48)) 0

/-- `str::parse` of a run of digits into an integer type whose largest value is `max`. -/
def parseDigits (max : Nat) (cs : List Char) : Option Nat :=
  if digitsValue cs ≤ max then some (digitsValue cs) else none

def maxLookbackDays : Nat := 3650

/-- `Nd`, `Nw`, `Nm` and `Ny`: the last `n` units, ending today. -/
def relativeSpan (unit : Char) (n : Nat) (today tomorrow : NaiveDate) : Option DateSpan := do
  let days :=
    match unit with
    | 'd' => n
    | 'w' => n * 7
    | 'm' => n * 31
    | _ => n * 365
  if maxLookbackDays < days then none
  else
    let start ←
      match unit with
      | 'd' => today.addDays (-n)
      | 'w' => today.addDays (-(n * 7))
      | 'm' => shiftMonthsBack today n
      | _ => shiftMonthsBack today (n * 12)
    return ⟨start, tomorrow⟩

/-- `YYYY`, `YYYY-MM` and `YYYY-MM-DD`. -/
def calendarSpan (parts : List (List Char)) : Option DateSpan :=
  match parts with
  | [y] =>
    if y.length = 4 ∧ allDigits y then do
      let start ← NaiveDate.fromYmdOpt (digitsValue y) 1 1
      let stop ← NaiveDate.fromYmdOpt (digitsValue y + 1) 1 1
      return ⟨start, stop⟩
    else none
  | [y, m] =>
    if y.length = 4 ∧ allDigits y ∧ m.length = 2 ∧ allDigits m then do
      let start ← NaiveDate.fromYmdOpt (digitsValue y) (digitsValue m) 1
      let stop ← firstOfNextMonth (digitsValue y) (digitsValue m)
      return ⟨start, stop⟩
    else none
  | [y, m, d] =>
    if y.length = 4 ∧ allDigits y ∧ m.length = 2 ∧ allDigits m ∧ d.length = 2 ∧ allDigits d then do
      let start ← NaiveDate.fromYmdOpt (digitsValue y) (digitsValue m) (digitsValue d)
      let stop ← start.addDays 1
      return ⟨start, stop⟩
    else none
  | _ => none

/-- A bare date value as a span. -/
def parseDateSpan (raw : String) (today : NaiveDate) : Option DateSpan := do
  let t := (toAsciiLower (trim raw)).toList
  let tomorrow ← today.addDays 1
  if t.isEmpty then none
  else if t = "today".toList then return ⟨today, tomorrow⟩
  else if t = "yesterday".toList then
    let start ← today.addDays (-1)
    return ⟨start, today⟩
  else
    let unit := t.getLast?.getD ' '
    if (unit == 'd' || unit == 'w' || unit == 'm' || unit == 'y') && allDigits t.dropLast then
      let n ← parseDigits (2 ^ 32 - 1) t.dropLast
      relativeSpan unit n today tomorrow
    else calendarSpan (t.splitOn '-')

/-- A date value with its optional comparison or range. -/
def parseDate (raw : String) (today : NaiveDate) : Option DateCmp :=
  let t := trim raw
  if t.isEmpty then none
  else
    match splitOnce ".." t with
    | some (a, b) => do
      let a ← parseDateSpan a today
      let b ← parseDateSpan b today
      if b.stop.day ≤ a.start.day then none else return .within ⟨a.start, b.stop⟩
    | none =>
      match stripPrefix ">=" t, stripPrefix "<=" t, stripPrefix ">" t, stripPrefix "<" t with
      | some rest, _, _, _ => do return .gte (← parseDateSpan rest today).start
      | none, some rest, _, _ => do return .lte (← parseDateSpan rest today).stop
      | none, none, some rest, _ => do return .gt (← parseDateSpan rest today).stop
      | none, none, none, some rest => do return .lt (← parseDateSpan rest today).start
      | none, none, none, none => do return .within (← parseDateSpan t today)

/-! Counts, sizes and ids. -/

/-- `>3`, `>=3`, `<10`, `<=10`, `1..10`, or a bare scalar meaning equals. -/
def parseCmp (raw : String) (scalar : String → Option Int) : Option Cmp :=
  let t := trim raw
  match splitOnce ".." t with
  | some (a, b) => do
    let a ← scalar a
    let b ← scalar b
    if a ≤ b then return .range a b else none
  | none =>
    match stripPrefix ">=" t, stripPrefix "<=" t, stripPrefix ">" t, stripPrefix "<" t with
    | some rest, _, _, _ => do return .gte (← scalar rest)
    | none, some rest, _, _ => do return .lte (← scalar rest)
    | none, none, some rest, _ => do return .gt (← scalar rest)
    | none, none, none, some rest => do return .lt (← scalar rest)
    | none, none, none, none => do return .eq (← scalar ((stripPrefix "=" t).getD t))

/-- The number digits with at most one point among them name: `(n, k)` is `n / 10 ^ k`. -/
def parseDecimal (cs : List Char) : Option (Nat × Nat) :=
  match cs.splitOn '.' with
  | [whole] => if whole.isEmpty then none else some (digitsValue whole, 0)
  | [whole, fraction] =>
    if whole.isEmpty && fraction.isEmpty then none
    else some (digitsValue (whole ++ fraction), fraction.length)
  | _ => none

/-- `num / den` over `2 ^ e`, as a fraction. -/
def scaleDown (num den : Nat) (e : Int) : Nat × Nat :=
  if 0 ≤ e then (num, den * 2 ^ e.toNat) else (num * 2 ^ (-e).toNat, den)

/-- The `f64` nearest to `num / den`, ties to even: `(q, e)` is `q * 2 ^ e`. -/
def nearestF64 (num den : Nat) : Nat × Int :=
  if num = 0 then (0, 0)
  else
    let e₀ : Int := (Nat.log2 num : Int) - Nat.log2 den - 52
    let below := scaleDown num den e₀
    -- The quotient must have 53 bits; the two logarithms leave one bit open.
    let e := if below.1 / below.2 < 2 ^ 52 then e₀ - 1 else e₀
    let (n, d) := scaleDown num den e
    let q := n / d
    let r := n % d
    (if d < 2 * r ∨ (2 * r = d ∧ q % 2 = 1) then q + 1 else q, e)

/-- `f64::round` of `q * 2 ^ e`: halves away from zero. -/
def roundF64 (q : Nat) (e : Int) : Nat :=
  if 0 ≤ e then q * 2 ^ e.toNat else (q + 2 ^ ((-e).toNat - 1)) / 2 ^ (-e).toNat

/-- `500k`, `1M`, `2G` (1024-based, case-insensitive), or bare bytes. -/
def parseSizeBytes (raw : String) : Option Int := do
  let t := (toAsciiLower (trim raw)).toList
  let number := t.takeWhile (fun c => c.isDigit || c == '.')
  let unit := t.dropWhile (fun c => c.isDigit || c == '.')
  if number.isEmpty then none
  else
    let (num, k) ← parseDecimal number
    let power ←
      match (trimChars unit).rdropWhile (· == 'b') with
      | [] => some 0
      | ['k'] => some 10
      | ['m'] => some 20
      | ['g'] => some 30
      | _ => none
    let (q, e) := nearestF64 num (10 ^ k)
    -- Scaling an `f64` by a power of two is exact; `as i64` saturates.
    let bytes := roundF64 q (e + power)
    if 2 ^ 63 < bytes then none else return min bytes (2 ^ 63 - 1)

/-- A non-negative integer. -/
def parseCount (raw : String) : Option Int :=
  let t := (trim raw).toList
  if allDigits t then (parseDigits (2 ^ 63 - 1) t).map Int.ofNat else none

/-- `#12`: the row with that id. -/
def parseId (raw : String) : Option Int := do
  let digits ← stripPrefix "#" (trim raw)
  if allDigits digits.toList then (parseDigits (2 ^ 63 - 1) digits.toList).map Int.ofNat else none

example : parseSizeBytes "1.5M" = some 1572864 := by decide

end MessageCrate

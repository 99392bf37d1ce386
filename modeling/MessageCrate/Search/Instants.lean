import MessageCrate.Lib.Clock
import MessageCrate.Lib.FixedWidth
import MessageCrate.Search.Dates

/- The instant a day begins.

   A zone is given by its offset transitions (`Clock.Zone`), at whole seconds, and `tz` is what
   `chrono_tz` answers for it.

   1. `searchGap_spec`: the search narrows a window around the gap's end to a second. Its turns
      halve the window, which half seconds come into, so it ends less than a second late.
   2. `rfc3339` writes whole seconds, which takes that away (`rfc3339_congr`), and its texts of
      the years 0 to 9999 are in the order of the seconds (`rfc3339_lt`).
   3. `utcInstant_eq`: what a day is compared by is the text of the first instant at which the
      clock shows its midnight or later.
   4. `days_part_the_instants`: so the days part the instants, and the comparisons of the texts
      say on which side of a day's beginning a stored instant is. -/
namespace MessageCrate
open Clock FixedWidth

/-- A zone whose offsets and transitions are whole seconds. -/
abbrev OffsetZone := Zone nanosPerSecond nanosPerDay

/-- `chrono_tz`'s answers: the clock's reading, and the first time it shows a reading. -/
def tz (z : OffsetZone) : Tz := ⟨z.occurrence, z.reading⟩

variable {z : OffsetZone}

/-! The search for the end of a gap. -/

/-- **The search ends less than a second past the end of the gap.** -/
theorem searchGap_spec {zone : Tz} {loc stop : Int} : ∀ (turns : Nat) (before after : Int),
    (∀ t, before < t → t < after → (loc ≤ zone.naiveLocal t ↔ stop ≤ t)) →
    before < stop → stop ≤ after → after - before ≤ nanosPerSecond * 2 ^ turns →
    stop ≤ searchGap zone loc turns before after ∧
      searchGap zone loc turns before after < stop + nanosPerSecond
  | 0, before, after, _, hbefore, hafter, hwidth => by
    rw [searchGap]
    omega
  | turns + 1, before, after, hgap, hbefore, hafter, hwidth => by
    have hhalf : nanosPerSecond * 2 ^ (turns + 1) = 2 * (nanosPerSecond * 2 ^ turns) := by
      rw [pow_succ]
      ring
    rw [hhalf] at hwidth
    rw [searchGap]
    split
    · next hwide =>
      have hsecond : nanosPerSecond = 1000000000 := rfl
      obtain ⟨mid, hmid⟩ : ∃ mid, mid = before + (after - before) / 2 := ⟨_, rfl⟩
      have hside := hgap mid (by omega) (by omega)
      simp only [← hmid]
      split
      · next hshown =>
        apply searchGap_spec turns before mid
        · exact fun t hlow hhigh => hgap t hlow (by omega)
        · exact hbefore
        · exact hside.mp hshown
        · omega
      · next hshown =>
        apply searchGap_spec turns mid after
        · exact fun t hlow hhigh => hgap t (by omega) hhigh
        · by_contra hstop
          exact hshown (hside.mpr (by omega))
        · exact hafter
        · omega
    · next hnarrow => omega

/-- What `first_instant_at_or_after` gives is in the second of the first instant. -/
theorem firstInstantAtOrAfter_spec {loc t : Int} (h : z.First loc t) :
    t ≤ firstInstantAtOrAfter (tz z) loc ∧ firstInstantAtOrAfter (tz z) loc < t + nanosPerSecond := by
  have hsecond : nanosPerSecond = 1000000000 := rfl
  rw [firstInstantAtOrAfter]
  rcases h.occurrence with hfound | ⟨hnone, hgap⟩
  · have htz : (tz z).earliest loc = some t := hfound
    rw [htz]
    simp only
    omega
  · have htz : (tz z).earliest loc = none := hnone
    rw [htz]
    apply searchGap_spec 18
    · exact fun u hlow hhigh => hgap u (by omega) hhigh
    · exact h.near.1
    · exact le_of_lt h.near.2
    · have hday : nanosPerDay = 86400000000000 := rfl
      rw [hsecond, hday]
      norm_num

/-! The text of an instant. -/

def yearOf (instant : Int) : Int := (civilFromDays (instant / nanosPerDay)).1

/-- The years whose texts have four digits and no sign. -/
def FourDigitYear (instant : Int) : Prop := 0 ≤ yearOf instant ∧ yearOf instant ≤ 9999

/-- Year, month, day, hour, minute and second, with what is behind each. -/
def stampFields : List (Nat × Char) :=
  [(4, '-'), (2, '-'), (2, 'T'), (2, ':'), (2, ':'), (2, 'Z')]

def stampNumbers (instant : Int) : List Nat :=
  let date := civilFromDays (instant / nanosPerDay)
  let secs := (instant % nanosPerDay / nanosPerSecond).toNat
  [date.1.toNat, date.2.1.toNat, date.2.2.toNat, secs / 3600, secs / 60 % 60, secs % 60]

/-- The text says no more of an instant than its second. -/
theorem rfc3339_congr {t u : Int} (h : t / nanosPerSecond = u / nanosPerSecond) :
    rfc3339 t = rfc3339 u ∧ yearOf t = yearOf u := by
  have hsecond : nanosPerSecond = 1000000000 := rfl
  have hday : nanosPerDay = 86400000000000 := rfl
  have hdays : t / nanosPerDay = u / nanosPerDay := by
    rw [hsecond] at h
    rw [hday]
    omega
  have hsecs : t % nanosPerDay / nanosPerSecond = u % nanosPerDay / nanosPerSecond := by
    rw [hday] at hdays
    rw [hsecond] at h
    rw [hday, hsecond]
    omega
  constructor
  · simp only [rfc3339, hdays, hsecs]
  · rw [yearOf, yearOf, hdays]

theorem toList_padded {width n : Nat} (hwidth : 0 < width) (hn : n < 10 ^ width) :
    (padded width n).toList = fixed width n := by
  rw [padded, String.toList_ofList]
  exact zeros_append_toDigits hwidth hn

theorem secs_lt (t : Int) : (t % nanosPerDay / nanosPerSecond).toNat < 86400 := by
  have hsecond : nanosPerSecond = 1000000000 := rfl
  have hday : nanosPerDay = 86400000000000 := rfl
  rw [hsecond, hday]
  omega

theorem date_bounds (day : Int) : 1 ≤ (civilFromDays day).2.1 ∧ (civilFromDays day).2.1 ≤ 12 ∧
    1 ≤ (civilFromDays day).2.2 ∧ (civilFromDays day).2.2 ≤ 31 := by
  obtain ⟨k, d, hlow, hhigh, -, hread⟩ := civilFromDays_spec day
  have := monthLength_bounds k
  rw [hread]
  simp only
  omega

theorem fits_stamp {t : Int} (h : FourDigitYear t) : Fits stampFields (stampNumbers t) := by
  obtain ⟨hlow, hhigh⟩ := h
  rw [yearOf] at hlow hhigh
  have hdate := date_bounds (t / nanosPerDay)
  have hsecs := secs_lt t
  refine ⟨?_, ?_, ?_, ?_, ?_, ?_, trivial⟩
  all_goals
    norm_num
    omega

theorem toList_rfc3339 {t : Int} (h : FourDigitYear t) :
    (rfc3339 t).toList = fieldsText stampFields (stampNumbers t) := by
  obtain ⟨hyear, hmonth, hdate, hhour, hminute, hsec, -⟩ := fits_stamp h
  rw [rfc3339]
  simp only [if_pos (show 0 ≤ (civilFromDays (t / nanosPerDay)).1 ∧
    (civilFromDays (t / nanosPerDay)).1 ≤ 9999 from h), String.toList_append]
  rw [toList_padded (by omega) hyear, toList_padded (by omega) hmonth, toList_padded (by omega) hdate,
    toList_padded (by omega) hhour, toList_padded (by omega) hminute, toList_padded (by omega) hsec]
  simp [fieldsText, stampFields, stampNumbers]

/-- Dates are in the order of their days. -/
theorem date_lt {day day' : Int} (h : day < day') :
    (civilFromDays day).1 < (civilFromDays day').1 ∨
      (civilFromDays day).1 = (civilFromDays day').1 ∧
        ((civilFromDays day).2.1 < (civilFromDays day').2.1 ∨
          (civilFromDays day).2.1 = (civilFromDays day').2.1 ∧
            (civilFromDays day).2.2 < (civilFromDays day').2.2) := by
  obtain ⟨k, d, hlow, hhigh, hday, hread⟩ := civilFromDays_spec day
  obtain ⟨k', d', hlow', hhigh', hday', hread'⟩ := civilFromDays_spec day'
  rw [hread, hread']
  simp only
  rcases lt_trichotomy k k' with hlt | rfl | hgt
  · omega
  · omega
  · have hstart := monthStart_strictMono.monotone (show k' + 1 ≤ k from hgt)
    rw [monthStart_succ] at hstart
    omega

theorem yearOf_mono {t u : Int} (h : t ≤ u) : yearOf t ≤ yearOf u := by
  have hday : nanosPerDay = 86400000000000 := rfl
  rw [yearOf, yearOf]
  rcases lt_or_ge (t / nanosPerDay) (u / nanosPerDay) with hlt | hge
  · have := date_lt hlt
    omega
  · have hle : t / nanosPerDay ≤ u / nanosPerDay := Int.ediv_le_ediv (by omega) h
    rw [le_antisymm hle hge]

theorem stampNumbers_lt {t u : Int} (ht : FourDigitYear t) (hu : FourDigitYear u)
    (h : t / nanosPerSecond < u / nanosPerSecond) : stampNumbers t < stampNumbers u := by
  have hsecond : nanosPerSecond = 1000000000 := rfl
  have hday : nanosPerDay = 86400000000000 := rfl
  have hdate := date_bounds (t / nanosPerDay)
  have hdate' := date_bounds (u / nanosPerDay)
  obtain ⟨hlow, -⟩ := ht
  obtain ⟨hlow', -⟩ := hu
  rw [yearOf] at hlow hlow'
  simp only [stampNumbers, List.cons_lt_cons_iff, List.lt_irrefl, and_false, or_false]
  rcases lt_or_ge (t / nanosPerDay) (u / nanosPerDay) with hlt | hge
  · have := date_lt hlt
    omega
  · -- on one day the seconds of the day decide
    have hsame : t / nanosPerDay = u / nanosPerDay := by
      rw [hsecond] at h
      rw [hday] at hge ⊢
      omega
    have hsecs : t % nanosPerDay / nanosPerSecond < u % nanosPerDay / nanosPerSecond := by
      rw [hsecond] at h
      rw [hday] at hsame
      rw [hday, hsecond]
      omega
    have hpos : 0 ≤ t % nanosPerDay / nanosPerSecond := by
      rw [hday, hsecond]
      omega
    rw [hsame]
    generalize ha : (t % nanosPerDay / nanosPerSecond).toNat = a
    generalize hb : (u % nanosPerDay / nanosPerSecond).toNat = b
    have hab : a < b := by omega
    omega

/-- **Texts of four-digit years are in the order of their seconds.** -/
theorem rfc3339_lt {t u : Int} (ht : FourDigitYear t) (hu : FourDigitYear u)
    (h : t / nanosPerSecond < u / nanosPerSecond) : rfc3339 t < rfc3339 u := by
  rw [String.lt_iff_toList_lt, toList_rfc3339 ht, toList_rfc3339 hu]
  exact fieldsText_lt (fits_stamp ht) (fits_stamp hu) (stampNumbers_lt ht hu h)

/-- A sign sorts before every digit. -/
theorem rfc3339_lt_of_neg {t u : Int} (ht : yearOf t < 0) (hu : FourDigitYear u) :
    rfc3339 t < rfc3339 u := by
  obtain ⟨tail, htail⟩ : ∃ tail, (rfc3339 t).toList = '-' :: tail := by
    rw [yearOf] at ht
    rw [rfc3339]
    simp only [if_neg (show ¬ (0 ≤ (civilFromDays (t / nanosPerDay)).1 ∧
      (civilFromDays (t / nanosPerDay)).1 ≤ 9999) by omega), if_pos ht, String.toList_append]
    exact ⟨_, rfl⟩
  obtain ⟨digit, tail', htail', hdigit⟩ : ∃ digit tail', (rfc3339 u).toList = digit :: tail' ∧
      '-' < digit := by
    rw [toList_rfc3339 hu]
    refine ⟨Nat.digitChar ((stampNumbers u).headD 0 / 10 / 10 / 10 % 10), _, rfl, ?_⟩
    have hall : ∀ d < 10, '-' < Nat.digitChar d := by decide
    exact hall _ (Nat.mod_lt _ (by omega))
  rw [String.lt_iff_toList_lt, htail, htail', List.cons_lt_cons_iff]
  exact .inl hdigit

/-! The instant a day begins. -/

/-- The first instant at which the clock shows the day's midnight or a later time. -/
def Begins (z : OffsetZone) (day : NaiveDate) (t : Int) : Prop :=
  IsLeast {u | day.day * nanosPerDay ≤ z.reading u} t

theorem Begins.first {day : NaiveDate} {t : Int} (h : Begins z day t) :
    z.First (day.day * nanosPerDay) t := by
  obtain ⟨u, hu⟩ := z.exists_first (day.day * nanosPerDay)
  rw [h.unique hu.isLeast]
  exact hu

theorem exists_begins (z : OffsetZone) (day : NaiveDate) : ∃ t, Begins z day t := by
  obtain ⟨t, ht⟩ := z.exists_first (day.day * nanosPerDay)
  exact ⟨t, ht.isLeast⟩

theorem Begins.whole {day : NaiveDate} {t : Int} (h : Begins z day t) : nanosPerSecond ∣ t := by
  have hday : nanosPerDay = 86400 * nanosPerSecond := rfl
  apply h.first.whole
  rw [hday]
  exact dvd_mul_of_dvd_right (dvd_mul_left _ _) _

theorem Begins.mono {day day' : NaiveDate} {t t' : Int} (h : Begins z day t) (h' : Begins z day' t')
    (hle : day.day ≤ day'.day) : t ≤ t' := by
  have hday : nanosPerDay = 86400000000000 := rfl
  apply h.first.mono h'.first
  rw [hday]
  omega

/-- **A day is compared by the text of the first instant at which the clock shows its midnight or
a later time**, and by none where that is after year 9999. -/
theorem utcInstant_eq {day : NaiveDate} {t : Int} (h : Begins z day t) :
    utcInstant (tz z) day = if yearOf t ≤ 9999 then some (rfc3339 t) else none := by
  obtain ⟨hlow, hhigh⟩ := firstInstantAtOrAfter_spec h.first
  have hwhole := h.whole
  have hsecond : nanosPerSecond = 1000000000 := rfl
  have hsame : firstInstantAtOrAfter (tz z) (day.day * nanosPerDay) / nanosPerSecond =
      t / nanosPerSecond := by
    rw [hsecond] at hwhole hhigh ⊢
    omega
  obtain ⟨htext, hyear⟩ := rfc3339_congr hsame
  rw [utcInstant, htext]
  rw [yearOf] at hyear
  rw [hyear, yearOf]

/-! What the comparisons say of a stored text. -/

/-- A bound on a stored text. -/
inductive Bound
  | atLeast (text : String)
  | below (text : String)
  | never
  | present

def Bound.sql (expr : String) : Bound → Sql
  | .atLeast text => push (expr ++ " >= ") ++ bindText text
  | .below text => push (expr ++ " < ") ++ bindText text
  | .never => push "0=1"
  | .present => push (expr ++ " IS NOT NULL")

/-- What the bound says of a text that is stored. SQLite compares bytes, which for these texts
are their characters. -/
def Bound.Holds (stored : String) : Bound → Prop
  | .atLeast text => text ≤ stored
  | .below text => stored < text
  | .never => False
  | .present => True

def atOrAfterBound (zone : Tz) (day : NaiveDate) : Bound :=
  (utcInstant zone day).elim .never .atLeast

def beforeBound (zone : Tz) (day : NaiveDate) : Bound :=
  (utcInstant zone day).elim .present .below

theorem atOrAfterSql_eq (expr : String) (zone : Tz) (day : NaiveDate) :
    atOrAfterSql expr zone day = (atOrAfterBound zone day).sql expr := by
  unfold atOrAfterSql atOrAfterBound
  generalize utcInstant zone day = instant
  cases instant with
  | none => rfl
  | some text => rfl

theorem beforeSql_eq (expr : String) (zone : Tz) (day : NaiveDate) :
    beforeSql expr zone day = (beforeBound zone day).sql expr := by
  unfold beforeSql beforeBound
  generalize utcInstant zone day = instant
  cases instant with
  | none => rfl
  | some text => rfl

/-- **The texts say on which side of a day's beginning an instant is.** -/
theorem before_iff {day : NaiveDate} {a t : Int} (h : Begins z day a) (ht : nanosPerSecond ∣ t)
    (hyear : FourDigitYear t) :
    ((beforeBound (tz z) day).Holds (rfc3339 t) ↔ t < a) ∧
      ((atOrAfterBound (tz z) day).Holds (rfc3339 t) ↔ a ≤ t) := by
  have hwhole := h.whole
  have hsecond : nanosPerSecond = 1000000000 := rfl
  rw [hsecond] at hwhole ht
  have hsecs : ∀ {u v : Int}, 1000000000 ∣ u → 1000000000 ∣ v → u < v →
      u / nanosPerSecond < v / nanosPerSecond := by
    intro u v hu hv huv
    rw [hsecond]
    omega
  rw [beforeBound, atOrAfterBound, utcInstant_eq h]
  split
  · next hlate =>
    show (rfc3339 t < rfc3339 a ↔ t < a) ∧ (rfc3339 a ≤ rfc3339 t ↔ a ≤ t)
    have hback : a < t → rfc3339 a < rfc3339 t := by
      intro hlt
      rcases lt_or_ge (yearOf a) 0 with hneg | hpos
      · exact rfc3339_lt_of_neg hneg hyear
      · exact rfc3339_lt ⟨hpos, hlate⟩ hyear (hsecs hwhole ht hlt)
    have hforth : t < a → rfc3339 t < rfc3339 a := by
      intro hlt
      have hpos : 0 ≤ yearOf a := le_trans hyear.1 (yearOf_mono (le_of_lt hlt))
      exact rfc3339_lt hyear ⟨hpos, hlate⟩ (hsecs ht hwhole hlt)
    rcases lt_trichotomy t a with hlt | rfl | hgt
    · have htext := hforth hlt
      exact ⟨iff_of_true htext hlt, iff_of_false (not_le.mpr htext) (not_le.mpr hlt)⟩
    · exact ⟨iff_of_false (lt_irrefl _) (lt_irrefl _), iff_of_true le_rfl le_rfl⟩
    · have htext := hback hgt
      exact ⟨iff_of_false (lt_asymm htext) (lt_asymm hgt), iff_of_true htext.le hgt.le⟩
  · next hlate =>
    -- the day begins after year 9999, and every stored instant is before it
    have hlt : t < a := by
      by_contra hle
      have := yearOf_mono (not_lt.mp hle)
      have := hyear.2
      omega
    show (True ↔ t < a) ∧ (False ↔ a ≤ t)
    exact ⟨iff_of_true trivial hlt, iff_of_false id (not_le.mpr hlt)⟩

/-! Days and instants. -/

/-- The instant is in the day: from where the day begins, and before the next one does. -/
def InDay (z : OffsetZone) (t : Int) (day : NaiveDate) : Prop :=
  ∃ next a b, day.addDays 1 = some next ∧ Begins z day a ∧ Begins z next b ∧ a ≤ t ∧ t < b

/-- The clock shows no time of the day. -/
def Skips (z : OffsetZone) (day : NaiveDate) : Prop :=
  ∀ t, ¬ (day.day * nanosPerDay ≤ z.reading t ∧ z.reading t < (day.day + 1) * nanosPerDay)

theorem not_inDay_of_skips {day : NaiveDate} (h : Skips z day) (t : Int) : ¬ InDay z t day := by
  rintro ⟨next, a, b, hnext, ha, hb, hat, htb⟩
  rw [NaiveDate.addDays_eq_some] at hnext
  -- where the day begins the clock shows the next one already
  have hpast : next.day * nanosPerDay ≤ z.reading a := by
    rw [hnext]
    by_contra hbefore
    exact h a ⟨ha.1, not_le.mp hbefore⟩
  have := hb.2 hpast
  omega

theorem InDay.le_iff {t : Int} {day other : NaiveDate} {a : Int} (h : InDay z t day)
    (hother : Begins z other a) : a ≤ t ↔ other.day ≤ day.day := by
  obtain ⟨next, b, c, hnext, hb, hc, hbt, htc⟩ := h
  rw [NaiveDate.addDays_eq_some] at hnext
  constructor
  · intro hat
    by_contra hlate
    have := hc.mono hother (by omega)
    omega
  · intro hle
    have := hother.mono hb hle
    omega

/-- The days of the years 0 to 9999, and some around them, are in chrono's range. -/
theorem dayNumber_bounds {t : Int} (h : FourDigitYear t) :
    minDay + 3 ≤ t / nanosPerDay ∧ t / nanosPerDay ≤ maxDay - 3 := by
  obtain ⟨hlow, hhigh⟩ := h
  obtain ⟨k, d, hfirst, hlast, hday, hread⟩ := civilFromDays_spec (t / nanosPerDay)
  rw [yearOf, hread] at hlow hhigh
  simp only at hlow hhigh
  have hstart := monthStart_strictMono.monotone (show 0 ≤ k by omega)
  have hstop := monthStart_strictMono.monotone (show k + 1 ≤ 120000 by omega)
  rw [monthStart_succ] at hstop
  have hzero : monthStart 0 = -719528 := by decide
  have htop : monthStart 120000 = 2932897 := by decide
  have hmin : minDay = -96465292 := by decide
  have hmax : maxDay = 95026236 := by decide
  omega

/-- **Every instant of the years 0 to 9999 is in one day.** -/
theorem existsUnique_inDay {t : Int} (h : FourDigitYear t) : ∃! day, InDay z t day := by
  have hday : nanosPerDay = 86400000000000 := rfl
  have hrange := dayNumber_bounds h
  rw [hday] at hrange
  -- the last day number whose midnight has been met
  let met : Int → Prop := fun n => ∃ a, z.First (n * nanosPerDay) a ∧ a ≤ t
  have hnear : ∀ n a, z.First (n * nanosPerDay) a →
      n * 86400000000000 - 86400000000000 < a ∧ a < n * 86400000000000 + 86400000000000 := by
    intro n a ha
    have := ha.near
    rwa [hday] at this
  have hbounded : ∃ b, ∀ n, met n → n ≤ b := by
    refine ⟨t / 86400000000000 + 2, ?_⟩
    rintro n ⟨a, ha, hat⟩
    have := hnear n a ha
    omega
  have hsome : ∃ n, met n := by
    obtain ⟨a, ha⟩ := z.exists_first ((t / 86400000000000 - 2) * nanosPerDay)
    have := hnear _ a ha
    exact ⟨_, a, ha, by omega⟩
  obtain ⟨n, ⟨a, ha, hat⟩, hlast⟩ := Int.exists_greatest_of_bdd hbounded hsome
  obtain ⟨b, hb⟩ := z.exists_first ((n + 1) * nanosPerDay)
  have htb : t < b := by
    by_contra hmet
    have := hlast (n + 1) ⟨b, hb, not_lt.mp hmet⟩
    omega
  have ha' := hnear n a ha
  have hb' := hnear (n + 1) b hb
  refine ⟨⟨n, by omega⟩, ⟨⟨n + 1, by omega⟩, a, b, NaiveDate.addDays_eq_some.mpr rfl, ha.isLeast,
    hb.isLeast, hat, htb⟩, ?_⟩
  intro other hother
  have hbegins : Begins z ⟨n, by omega⟩ a := ha.isLeast
  have hle := (hother.le_iff hbegins).mp hat
  have hge : other.day ≤ n := by
    obtain ⟨next, c, e, hnext, hc, -, hct, -⟩ := hother
    have := hlast other.day ⟨c, hc.first, hct⟩
    exact this
  cases other
  simp only [NaiveDate.mk.injEq]
  simp only at hle hge
  omega

/-- What a date filter says of a stored instant is what it says of the day the instant is in. -/
theorem filter_says_of_its_day {t : Int} {day : NaiveDate} (hday : InDay z t day)
    (ht : nanosPerSecond ∣ t) (hyear : FourDigitYear t) (cmp : DateCmp) :
    cmp.read And (fun d => (atOrAfterBound (tz z) d).Holds (rfc3339 t))
      (fun d => (beforeBound (tz z) d).Holds (rfc3339 t)) ↔ cmp.Holds day.day := by
  have hafter : ∀ d, (atOrAfterBound (tz z) d).Holds (rfc3339 t) ↔ d.day ≤ day.day := by
    intro d
    obtain ⟨a, ha⟩ := exists_begins z d
    rw [(before_iff ha ht hyear).2, hday.le_iff ha]
  have hbefore : ∀ d, (beforeBound (tz z) d).Holds (rfc3339 t) ↔ day.day < d.day := by
    intro d
    obtain ⟨a, ha⟩ := exists_begins z d
    rw [(before_iff ha ht hyear).1, ← not_le, hday.le_iff ha, not_le]
  cases cmp with
  | within span => exact and_congr (hafter span.start) (hbefore span.stop)
  | gte d => exact hafter d
  | gt d => exact hafter d
  | lt d => exact hbefore d
  | lte d => exact hbefore d

/-- **The days part the instants in the zone, and the texts are compared as the instants.** -/
theorem days_part_the_instants (z : OffsetZone) :
    (∀ day, ∃ t, Begins z day t ∧ nanosPerSecond ∣ t ∧
      t ≤ firstInstantAtOrAfter (tz z) (day.day * nanosPerDay) ∧
      firstInstantAtOrAfter (tz z) (day.day * nanosPerDay) < t + nanosPerSecond ∧
      utcInstant (tz z) day = if yearOf t ≤ 9999 then some (rfc3339 t) else none) ∧
    (∀ day day' t t', Begins z day t → Begins z day' t' → day.day ≤ day'.day → t ≤ t') ∧
    (∀ t, FourDigitYear t → ∃! day, InDay z t day) ∧
    (∀ day, Skips z day → ∀ t, ¬ InDay z t day) ∧
    ∀ day a t, Begins z day a → nanosPerSecond ∣ t → FourDigitYear t →
      ((beforeBound (tz z) day).Holds (rfc3339 t) ↔ t < a) ∧
        ((atOrAfterBound (tz z) day).Holds (rfc3339 t) ↔ a ≤ t) := by
  refine ⟨?_, fun _ _ _ _ h h' hle => h.mono h' hle, fun _ h => existsUnique_inDay h,
    fun _ h => not_inDay_of_skips h, fun _ _ _ h ht hyear => before_iff h ht hyear⟩
  intro day
  obtain ⟨t, ht⟩ := exists_begins z day
  obtain ⟨hlow, hhigh⟩ := firstInstantAtOrAfter_spec ht.first
  exact ⟨t, ht, ht.whole, hlow, hhigh, utcInstant_eq ht⟩

/-- Pacific/Apia went from ten hours behind to fourteen ahead as 30 December 2011 was to begin. -/
def apia : OffsetZone where
  initial := -36000 * nanosPerSecond
  transitions := [((daysFromCivil 2011 12 30 * 86400 + 36000) * nanosPerSecond, 50400 * nanosPerSecond)]
  short := by decide
  whole := by decide
  apart := List.pairwise_singleton _ _

def skippedDay : NaiveDate := ⟨daysFromCivil 2011 12 30, by decide⟩

theorem days_part_the_instants_apia :
    (∀ t, ¬ InDay apia t skippedDay) ∧
      ∃! day, InDay apia ((daysFromCivil 2011 12 30 * 86400 + 36000) * nanosPerSecond) day := by
  obtain ⟨-, -, hunique, hskips, -⟩ := days_part_the_instants apia
  have hsecond : nanosPerSecond = 1000000000 := rfl
  have hday : nanosPerDay = 86400000000000 := rfl
  refine ⟨hskips skippedDay ?_, hunique _ (by unfold FourDigitYear; decide)⟩
  intro t
  have hreading : apia.reading t =
      t + if t < (daysFromCivil 2011 12 30 * 86400 + 36000) * nanosPerSecond then
        -36000 * nanosPerSecond else 50400 * nanosPerSecond := rfl
  rw [hreading, show skippedDay.day = daysFromCivil 2011 12 30 from rfl, hsecond, hday]
  split
  · omega
  · omega

example : (utcInstant (tz apia) skippedDay) = some "2011-12-30T10:00:00Z" := by decide +kernel

end MessageCrate

import MessageCrate.Lib.Casing
import MessageCrate.Ir.Phone

/- A handle's key, parsed again (`crates/libs/phone`).

   `Handle::parse` classifies an address and keys it. A key is meant to be an address of the
   same kind with the same key. It is, for every kind and every count of digits but one: a
   number written with a `+`, ten digits long and starting with `0` (`TrunkTen`), keeps its
   digits and loses its `+`, and ten digits without a `+` are read as a US number.

   1. `PhoneKey`: what a phone number's key can be, by region, count and first digit.
   2. `normalizeTypedHandle_phone_iff`: it is its own key exactly when not `TrunkTen`.
   3. `handle_key_fixed_iff`: the same of `Handle.parse`, whose kinds an email address's
      lower case and a number's digits keep. -/
namespace MessageCrate
open Text

/-- Punctuation a written phone number may carry between or around its digits. -/
def phonePunctuation : List Char := ['+', '-', '(', ')', '.', ' ', '\t']

/-- After an optional `tel:`, at least one digit and nothing but digits and the punctuation a
dialled number carries. -/
def isWrittenAsANumber (value : String) : Bool :=
  let number :=
    if (value.toList.take 4).map Char.toLower = "tel:".toList then value.toList.drop 4
    else value.toList
  number.any Char.isDigit &&
    number.all (fun c => c.isDigit || phonePunctuation.contains c || c == '#' || c == '*')

/-- An address as a source wrote it, classified once. -/
structure Handle where
  kind : HandleType
  key : String
  raw : String
  deriving DecidableEq, Repr

/-- What kind of address a trimmed value is written as. -/
def Handle.kindOf (value : String) : HandleType :=
  if value.toList.contains '@' then .email
  else if isWrittenAsANumber value then .phone
  else .other

section parse
variable (toLowercase : String → String)

/-- A handle of a kind the caller already knows. -/
def Handle.typed (raw : String) (kind : HandleType) : Handle :=
  { kind, key := (normalizeTypedHandle toLowercase raw kind).1, raw := trim raw }

/-- Classify an address; `none` when it is blank. -/
def Handle.parse (raw : String) : Option Handle :=
  let value := trim raw
  if value = "" then none else some (Handle.typed toLowercase value (Handle.kindOf value))

end parse

/-- A number with a `+` before it that is ten digits long and starts with the trunk prefix. -/
def TrunkTen (raw : String) : Prop :=
  PhoneRegion.forRaw raw = .international ∧ (digitsOf raw).length = 10 ∧
    (digitsOf raw).head? = some '0'

instance (raw : String) : Decidable (TrunkTen raw) := inferInstanceAs (Decidable (_ ∧ _ ∧ _))

/-! A phone number's key. -/

/-- What a phone number is keyed by. -/
inductive PhoneKey (raw : String) : String → Prop
  | home : PhoneRegion.forRaw raw = .usa → (digitsOf raw).length = 10 →
      PhoneKey raw ("+" ++ String.ofList ('1' :: digitsOf raw))
  | country : (digitsOf raw).head? ≠ some '0' → 8 ≤ (digitsOf raw).length →
      (digitsOf raw).length ≤ 15 → PhoneKey raw ("+" ++ String.ofList (digitsOf raw))
  | digits : 4 ≤ (digitsOf raw).length →
      ((digitsOf raw).length = 11 → (digitsOf raw).head? ≠ some '1') →
      ((digitsOf raw).length = 10 → TrunkTen raw) → PhoneKey raw (String.ofList (digitsOf raw))
  | short : (digitsOf raw).length < 4 → PhoneKey raw (trim raw)

section keys
variable (toLowercase : String → String) {raw : String}

theorem trim_ne_nil_of_digits (h : digitsOf raw ≠ []) : trim raw ≠ "" := by
  intro hempty
  rw [← digitsOf_trim, hempty] at h
  exact h rfl

/-- A number with a `+` before its first digit has a `+`. -/
theorem contains_plus (h : PhoneRegion.forRaw raw = .international) :
    (trim raw).toList.contains '+' = true := by
  rw [← forRaw_trim] at h
  unfold PhoneRegion.forRaw at h
  split at h
  · next hplus =>
    rw [List.contains_iff_mem] at hplus ⊢
    exact (List.takeWhile_sublist _).subset hplus
  · cases h

/-- US rules are certain of ten digits. -/
theorem checked_ten (h : (digitsOf raw).length = 10) :
    normalizeChecked raw .usa = .ok ("+1" ++ String.ofList (digitsOf raw)) := by
  have hne : digitsOf raw ≠ [] := List.ne_nil_of_length_pos (by omega)
  simp [normalizeChecked, trim_ne_nil_of_digits hne, digitsOf_trim, h]

/-- And of eleven that start with `1`. -/
theorem checked_eleven (h : (digitsOf raw).length = 11) (hone : (digitsOf raw).head? = some '1') :
    normalizeChecked raw .usa = .ok ("+" ++ String.ofList (digitsOf raw)) := by
  have hne : digitsOf raw ≠ [] := List.ne_nil_of_length_pos (by omega)
  simp [normalizeChecked, trim_ne_nil_of_digits hne, digitsOf_trim, h, hone]

theorem checked_usa (hten : (digitsOf raw).length ≠ 10)
    (heleven : (digitsOf raw).length = 11 → (digitsOf raw).head? ≠ some '1') :
    ∃ reason, normalizeChecked raw .usa = .error reason := by
  have hone : ¬ ((digitsOf raw).length = 11 ∧ (digitsOf raw).head? = some '1') :=
    fun h => heleven h.1 h.2
  simp only [normalizeChecked, digitsOf_trim, if_neg hten, if_neg hone]
  split
  · exact ⟨_, rfl⟩
  split
  · exact ⟨_, rfl⟩
  · exact ⟨_, rfl⟩

/-- International rules are certain of eight to fifteen digits that do not start with `0`. -/
theorem checked_international (h : PhoneRegion.forRaw raw = .international)
    (hzero : (digitsOf raw).head? ≠ some '0') (hlo : 8 ≤ (digitsOf raw).length)
    (hhi : (digitsOf raw).length ≤ 15) :
    normalizeChecked raw .international = .ok ("+" ++ String.ofList (digitsOf raw)) := by
  have hne : digitsOf raw ≠ [] := List.ne_nil_of_length_pos (by omega)
  simp only [normalizeChecked, digitsOf_trim]
  rw [if_neg (trim_ne_nil_of_digits hne), if_neg (by rw [contains_plus h]; decide), if_neg hzero,
    if_pos ⟨hlo, hhi⟩]

theorem checked_abroad (h : PhoneRegion.forRaw raw = .international)
    (hno : ¬ ((digitsOf raw).head? ≠ some '0' ∧ 8 ≤ (digitsOf raw).length ∧
      (digitsOf raw).length ≤ 15)) :
    ∃ reason, normalizeChecked raw .international = .error reason := by
  unfold normalizeChecked
  simp only [digitsOf_trim]
  split
  · exact ⟨_, rfl⟩
  rw [if_neg (by rw [contains_plus h]; decide)]
  split
  · exact ⟨_, rfl⟩
  · next hzero =>
    rw [if_neg (fun hlength => hno ⟨hzero, hlength⟩)]
    exact ⟨_, rfl⟩

/-- The digits kept when the parse is uncertain. -/
theorem sanitizeNumber_eq
    (hcountry : (digitsOf raw).length = 11 → (digitsOf raw).head? ≠ some '1') :
    sanitizeNumber raw =
      if (digitsOf raw).length < 4 then none else some (String.ofList (digitsOf raw)) := by
  have hkeep : ¬ ((digitsOf raw).length = 11 ∧ (digitsOf raw).head? = some '1') :=
    fun h => hcountry h.1 h.2
  unfold sanitizeNumber
  split
  · next hempty =>
    have hnone : digitsOf raw = [] := by rw [hempty]; rfl
    simp [hnone]
  · simp only
    rw [if_neg hkeep]

theorem key_of_certain {e164 : String} (hne : e164 ≠ "")
    (h : normalizeChecked raw (PhoneRegion.forRaw raw) = .ok e164) :
    (normalizeTypedHandle toLowercase raw .phone).1 = e164 := by
  simp only [normalizeTypedHandle, normalizeGuarded, h, if_neg hne]

theorem key_of_uncertain {reason : String}
    (h : normalizeChecked raw (PhoneRegion.forRaw raw) = .error reason)
    (hcountry : (digitsOf raw).length = 11 → (digitsOf raw).head? ≠ some '1') :
    (normalizeTypedHandle toLowercase raw .phone).1 =
      if (digitsOf raw).length < 4 then trim raw else String.ofList (digitsOf raw) := by
  simp only [normalizeTypedHandle, normalizeGuarded, h, sanitizeNumber_eq hcountry]
  by_cases hshort : (digitsOf raw).length < 4
  · simp [hshort]
  · have hne : digitsOf raw ≠ [] := List.ne_nil_of_length_pos (by omega)
    simp [hshort, hne]

/-- The key of a number whose parse is uncertain. -/
theorem phoneKey_uncertain {reason : String}
    (h : normalizeChecked raw (PhoneRegion.forRaw raw) = .error reason)
    (hcountry : (digitsOf raw).length = 11 → (digitsOf raw).head? ≠ some '1')
    (hten : (digitsOf raw).length = 10 → TrunkTen raw) :
    PhoneKey raw (normalizeTypedHandle toLowercase raw .phone).1 := by
  rw [key_of_uncertain toLowercase h hcountry]
  split
  · next hshort => exact .short hshort
  · next hlong => exact .digits (by omega) hcountry hten

/-- **The key of a phone number, by its region, its count of digits and the first.** -/
theorem phoneKey (raw : String) : PhoneKey raw (normalizeTypedHandle toLowercase raw .phone).1 := by
  cases hregion : PhoneRegion.forRaw raw with
  | usa =>
    by_cases hten : (digitsOf raw).length = 10
    · have hkey := key_of_certain toLowercase (by simp) (hregion ▸ checked_ten hten)
      have hplus : "+1" ++ String.ofList (digitsOf raw) =
          "+" ++ String.ofList ('1' :: digitsOf raw) := by
        apply String.toList_injective
        simp
      rw [hkey, hplus]
      exact .home hregion hten
    by_cases heleven : (digitsOf raw).length = 11 ∧ (digitsOf raw).head? = some '1'
    · have hkey := key_of_certain toLowercase (by simp)
        (hregion ▸ checked_eleven heleven.1 heleven.2)
      rw [hkey]
      exact .country (by rw [heleven.2]; decide) (by omega) (by omega)
    · have hcountry : (digitsOf raw).length = 11 → (digitsOf raw).head? ≠ some '1' :=
        fun hlength hone => heleven ⟨hlength, hone⟩
      obtain ⟨reason, hreason⟩ := checked_usa hten hcountry
      exact phoneKey_uncertain toLowercase (hregion ▸ hreason) hcountry
        (fun hlength => absurd hlength hten)
  | international =>
    by_cases hcertain : (digitsOf raw).head? ≠ some '0' ∧ 8 ≤ (digitsOf raw).length ∧
        (digitsOf raw).length ≤ 15
    · obtain ⟨hzero, hlo, hhi⟩ := hcertain
      have hkey := key_of_certain toLowercase (by simp)
        (hregion ▸ checked_international hregion hzero hlo hhi)
      rw [hkey]
      exact .country hzero hlo hhi
    · obtain ⟨reason, hreason⟩ := checked_abroad hregion hcertain
      refine phoneKey_uncertain toLowercase (hregion ▸ hreason) ?_ ?_
      · intro hlength hone
        exact hcertain ⟨by rw [hone]; decide, by omega, by omega⟩
      · intro hlength
        refine ⟨hregion, hlength, ?_⟩
        by_contra hzero
        exact hcertain ⟨hzero, by omega, by omega⟩

end keys

/-! Keys read again. -/

section again
variable (toLowercase : String → String) {raw : String} {ds : List Char}

theorem isDigit_digitsOf (raw : String) : ∀ c ∈ digitsOf raw, c.isDigit = true :=
  fun _ hc => (List.mem_filter.mp hc).2

theorem digitsOf_plus (h : ∀ c ∈ ds, c.isDigit = true) : digitsOf ("+" ++ String.ofList ds) = ds := by
  have hplus : ("+" ++ String.ofList ds).toList = '+' :: ds := by simp
  rw [digitsOf, hplus, List.filter_cons_of_neg (by decide), List.filter_eq_self.mpr h]

theorem forRaw_plus (s : String) : PhoneRegion.forRaw ("+" ++ s) = .international := by
  have hplus : ("+" ++ s).toList = '+' :: s.toList := by simp
  simp [PhoneRegion.forRaw, hplus]

theorem digitsOf_digits (h : ∀ c ∈ ds, c.isDigit = true) : digitsOf (String.ofList ds) = ds := by
  rw [digitsOf, String.toList_ofList, List.filter_eq_self.mpr h]

theorem forRaw_digits (h : ∀ c ∈ ds, c.isDigit = true) :
    PhoneRegion.forRaw (String.ofList ds) = .usa := by
  cases ds with
  | nil => rfl
  | cons c ds =>
    have hc : c.isDigit = true := h c List.mem_cons_self
    simp [PhoneRegion.forRaw, hc]

/-- A key with a `+` is its own. -/
theorem key_plus (h : ∀ c ∈ ds, c.isDigit = true) (hzero : ds.head? ≠ some '0')
    (hlo : 8 ≤ ds.length) (hhi : ds.length ≤ 15) :
    (normalizeTypedHandle toLowercase ("+" ++ String.ofList ds) .phone).1 =
      "+" ++ String.ofList ds := by
  have hdigits := digitsOf_plus h
  have hregion := forRaw_plus (String.ofList ds)
  have hchecked : normalizeChecked ("+" ++ String.ofList ds) .international =
      .ok ("+" ++ String.ofList (digitsOf ("+" ++ String.ofList ds))) :=
    checked_international hregion (hdigits.symm ▸ hzero) (hdigits.symm ▸ hlo) (hdigits.symm ▸ hhi)
  rw [hdigits] at hchecked
  exact key_of_certain toLowercase (by simp) (hregion ▸ hchecked)

/-- A key of digits alone is its own, unless US rules are certain of them. -/
theorem key_digits (h : ∀ c ∈ ds, c.isDigit = true) (hlong : 4 ≤ ds.length)
    (hten : ds.length ≠ 10) (heleven : ds.length = 11 → ds.head? ≠ some '1') :
    (normalizeTypedHandle toLowercase (String.ofList ds) .phone).1 = String.ofList ds := by
  have hdigits := digitsOf_digits h
  obtain ⟨reason, hreason⟩ := checked_usa (hdigits.symm ▸ hten) (hdigits.symm ▸ heleven)
  rw [key_of_uncertain toLowercase ((forRaw_digits h).symm ▸ hreason) (hdigits.symm ▸ heleven),
    hdigits, if_neg (by omega)]

theorem key_ten_digits (h : ∀ c ∈ ds, c.isDigit = true) (hten : ds.length = 10) :
    (normalizeTypedHandle toLowercase (String.ofList ds) .phone).1 =
      "+1" ++ String.ofList ds := by
  have hdigits := digitsOf_digits h
  have hchecked := checked_ten (hdigits.symm ▸ hten)
  rw [hdigits] at hchecked
  exact key_of_certain toLowercase (by simp) ((forRaw_digits h).symm ▸ hchecked)

/-- **A phone number's key is its own key, unless the number has a `+` and ten digits that
start with `0`.** -/
theorem normalizeTypedHandle_phone_iff (raw : String) :
    (normalizeTypedHandle toLowercase (normalizeTypedHandle toLowercase raw .phone).1 .phone).1 =
      (normalizeTypedHandle toLowercase raw .phone).1 ↔ ¬ TrunkTen raw := by
  have hdigit := isDigit_digitsOf raw
  have hkey := phoneKey toLowercase raw
  generalize hnormal : (normalizeTypedHandle toLowercase raw .phone).1 = key at hkey ⊢
  cases hkey with
  | home hregion hten =>
    have hdigits : ∀ c ∈ '1' :: digitsOf raw, c.isDigit = true :=
      List.forall_mem_cons.mpr ⟨rfl, hdigit⟩
    have hlength : ('1' :: digitsOf raw).length = 11 := by rw [List.length_cons, hten]
    have hsame := key_plus toLowercase hdigits (by simp) (by omega) (by omega)
    refine iff_of_true hsame (fun htrunk => ?_)
    exact absurd (hregion.symm.trans htrunk.1) (by decide)
  | country hzero hlo hhi =>
    exact iff_of_true (key_plus toLowercase hdigit hzero hlo hhi) (fun htrunk => hzero htrunk.2.2)
  | digits hlong hcountry hten =>
    by_cases hlength : (digitsOf raw).length = 10
    · -- ten digits without their `+`
      refine iff_of_false ?_ (not_not.mpr (hten hlength))
      rw [key_ten_digits toLowercase hdigit hlength]
      intro heq
      have := congrArg String.length heq
      simp [String.length_append] at this
    · exact iff_of_true (key_digits toLowercase hdigit hlong hlength hcountry)
        (fun htrunk => hlength htrunk.2.1)
  | short hshort =>
    rw [normalizeTypedHandle_trim, hnormal]
    exact iff_of_true rfl (fun htrunk => by have := htrunk.2.1; omega)

end again

/-! Handles parsed again. -/

section parsed
variable {toLowercase : String → String} {raw key : String} {handle : Handle} {cs : List Char}

theorem key_typed (raw : String) (kind : HandleType) :
    (Handle.typed toLowercase raw kind).key = (normalizeTypedHandle toLowercase raw kind).1 := rfl

theorem kind_typed (raw : String) (kind : HandleType) :
    (Handle.typed toLowercase raw kind).kind = kind := rfl

/-- What a parsed handle is. -/
theorem parse_eq_some (h : Handle.parse toLowercase raw = some handle) :
    trim raw ≠ "" ∧ handle.kind = Handle.kindOf (trim raw) ∧
      handle.key = (normalizeTypedHandle toLowercase raw (Handle.kindOf (trim raw))).1 := by
  by_cases hblank : trim raw = ""
  · simp [Handle.parse, hblank] at h
  · have hparse : Handle.parse toLowercase raw =
        some (Handle.typed toLowercase (trim raw) (Handle.kindOf (trim raw))) := if_neg hblank
    rw [hparse, Option.some.injEq] at h
    subst h
    refine ⟨hblank, kind_typed _ _, ?_⟩
    rw [key_typed, normalizeTypedHandle_trim]

/-- A trimmed text parses as what it is written as. -/
theorem parse_trimmed (htrim : trim key = key) (hne : key ≠ "") :
    Handle.parse toLowercase key = some (Handle.typed toLowercase key (Handle.kindOf key)) := by
  simp only [Handle.parse, htrim, if_neg hne]

/-- Digits, with or without a `+`, are a phone number. -/
theorem kindOf_dialled (h : ∀ c ∈ cs, c.isDigit = true ∨ c = '+')
    (hdigit : ∃ c ∈ cs, c.isDigit = true) :
    trim (String.ofList cs) = String.ofList cs ∧ Handle.kindOf (String.ofList cs) = .phone := by
  have hspace : ∀ c ∈ cs, isWhitespace c = false := by
    intro c hc
    rcases h c hc with hd | rfl
    · by_contra hspace
      rw [Bool.not_eq_false] at hspace
      rw [isDigit_of_isWhitespace hspace] at hd
      cases hd
    · exact isWhitespace_plus
  have hat : ¬ cs.contains '@' = true := by
    intro hat
    rw [List.contains_iff_mem] at hat
    rcases h '@' hat with hd | hd
    · exact absurd hd (by decide)
    · exact absurd hd (by decide)
  -- no scheme: its first letter is no digit and no `+`
  have hscheme : (cs.take 4).map Char.toLower ≠ "tel:".toList := by
    intro hscheme
    cases cs with
    | nil => exact absurd hscheme (by decide)
    | cons c cs =>
      have hlower : c.toLower = 't' := by
        rw [List.take_succ_cons, List.map_cons] at hscheme
        exact (List.cons.inj hscheme).1
      rcases h c List.mem_cons_self with hd | rfl
      · have hupper : ¬ c.isUpper = true := by
          intro hupper
          rw [Char.isUpper, decide_eq_true_eq] at hupper
          rw [Char.isDigit, Bool.and_eq_true, decide_eq_true_eq, decide_eq_true_eq] at hd
          exact absurd (UInt32.le_trans hupper.1 hd.2) (by decide)
        rw [Char.toLower_eq_of_not_isUpper hupper] at hlower
        rw [hlower] at hd
        exact absurd hd (by decide)
      · exact absurd hlower (by decide)
  have hall : cs.all (fun c => c.isDigit || phonePunctuation.contains c || c == '#' || c == '*') =
      true := by
    rw [List.all_eq_true]
    intro c hc
    rcases h c hc with hd | rfl
    · simp [hd]
    · decide
  have hany : cs.any Char.isDigit = true := List.any_eq_true.mpr hdigit
  constructor
  · rw [trim, String.toList_ofList, trimChars_eq_self]
    · exact fun c hc => hspace c (List.mem_of_mem_head? hc)
    · exact fun c hc => hspace c (List.mem_of_mem_getLast? hc)
  · rw [Handle.kindOf, isWrittenAsANumber, String.toList_ofList, if_neg hat, if_neg hscheme, hall,
      hany]
    rfl

/-- A phone number's key is a phone number. -/
theorem kindOf_phoneKey (hraw : Handle.kindOf (trim raw) = .phone) (h : PhoneKey raw key) :
    trim key = key ∧ Handle.kindOf key = .phone := by
  have hdigit := isDigit_digitsOf raw
  have hplus : ∀ {ds : List Char}, (∀ c ∈ ds, c.isDigit = true) → ds ≠ [] →
      trim ("+" ++ String.ofList ds) = "+" ++ String.ofList ds ∧
        Handle.kindOf ("+" ++ String.ofList ds) = .phone := by
    intro ds hds hne
    have hcons : "+" ++ String.ofList ds = String.ofList ('+' :: ds) := by
      apply String.toList_injective
      simp
    obtain ⟨d, hd⟩ := List.exists_mem_of_ne_nil ds hne
    rw [hcons]
    refine kindOf_dialled ?_ ⟨d, List.mem_cons_of_mem _ hd, hds d hd⟩
    exact List.forall_mem_cons.mpr ⟨.inr rfl, fun c hc => .inl (hds c hc)⟩
  cases h with
  | home _ hten => exact hplus (List.forall_mem_cons.mpr ⟨rfl, hdigit⟩) (List.cons_ne_nil _ _)
  | country _ hlo _ => exact hplus hdigit (List.ne_nil_of_length_pos (by omega))
  | digits hlong _ _ =>
    obtain ⟨d, hd⟩ := List.exists_mem_of_ne_nil _
      (List.ne_nil_of_length_pos (by omega : 0 < (digitsOf raw).length))
    exact kindOf_dialled (fun c hc => .inl (hdigit c hc)) ⟨d, hd, hdigit d hd⟩
  | short _ => exact ⟨trim_trim raw, hraw⟩

end parsed

section fixed
variable (table : Casing.Table) (wordFinal : List Char → List Char → Bool)

/-- A value written as a number has no `@`. -/
theorem kindOf_eq_phone (value : String) :
    Handle.kindOf value = .phone ↔ isWrittenAsANumber value = true := by
  have hat : value.toList.contains '@' = true → isWrittenAsANumber value ≠ true := by
    rw [List.contains_iff_mem]
    intro hat hnumber
    rw [isWrittenAsANumber] at hnumber
    have hall := (Bool.and_eq_true_iff.mp hnumber).2
    rw [List.all_eq_true] at hall
    split at hall
    · next hscheme =>
      rw [← List.take_append_drop 4 value.toList, List.mem_append] at hat
      rcases hat with hat | hat
      · have hmem : Char.toLower '@' ∈ (value.toList.take 4).map Char.toLower :=
          List.mem_map_of_mem hat
        rw [hscheme] at hmem
        exact absurd hmem (by decide)
      · exact absurd (hall '@' hat) (by decide)
    · exact absurd (hall '@' hat) (by decide)
  unfold Handle.kindOf
  split
  · next h => exact iff_of_false (by decide) (hat h)
  split
  · next h => exact iff_of_true rfl h
  · next h => exact iff_of_false (by decide) h

/-- A key that is no phone number's is its own. -/
theorem normalizeTypedHandle_other {kind : HandleType} (hkind : kind ≠ .phone) (raw : String) :
    (normalizeTypedHandle (Casing.toLowercase table wordFinal)
      (normalizeTypedHandle (Casing.toLowercase table wordFinal) raw kind).1 kind).1 =
      (normalizeTypedHandle (Casing.toLowercase table wordFinal) raw kind).1 := by
  cases kind with
  | phone => exact absurd rfl hkind
  | email =>
    simp only [normalizeTypedHandle]
    rw [Casing.trim_toLowercase, Casing.toLowercase_toLowercase]
  | username => exact trim_trim raw
  | other => exact trim_trim raw

/-- A key is written as an address of its kind. -/
theorem kindOf_key (raw : String) :
    let key := (normalizeTypedHandle (Casing.toLowercase table wordFinal) raw
      (Handle.kindOf (trim raw))).1
    trim key = key ∧ Handle.kindOf key = Handle.kindOf (trim raw) := by
  have hkind : ∀ kind, Handle.kindOf (trim raw) = kind →
      trim (normalizeTypedHandle (Casing.toLowercase table wordFinal) raw kind).1 =
        (normalizeTypedHandle (Casing.toLowercase table wordFinal) raw kind).1 ∧
      Handle.kindOf (normalizeTypedHandle (Casing.toLowercase table wordFinal) raw kind).1 =
        kind := by
    intro kind hkind
    cases kind with
    | phone => exact kindOf_phoneKey hkind (phoneKey _ raw)
    | email =>
      have hat : '@' ∈ (trim raw).toList := by
        unfold Handle.kindOf at hkind
        split at hkind
        · next hat => exact List.contains_iff_mem.mp hat
        · split at hkind <;> cases hkind
      have hlower : '@' ∈ (Casing.toLowercase table wordFinal (trim raw)).toList :=
        Casing.mem_toLowercase (by decide) (by decide) hat
      refine ⟨Casing.trim_toLowercase raw, ?_⟩
      simp [Handle.kindOf, normalizeTypedHandle, hlower]
    | username =>
      unfold Handle.kindOf at hkind
      split at hkind
      · cases hkind
      · split at hkind <;> cases hkind
    | other => exact ⟨trim_trim raw, hkind⟩
  exact hkind _ rfl

/-- **A handle's key parses to the handle's kind and key, and a typed handle's key is its own,
exactly when the number is not one with a `+` and ten digits that start with `0`.** -/
theorem handle_key_fixed_iff :
    (∀ raw handle, Handle.parse (Casing.toLowercase table wordFinal) raw = some handle →
      ((∃ again, Handle.parse (Casing.toLowercase table wordFinal) handle.key = some again ∧
        again.kind = handle.kind ∧ again.key = handle.key) ↔
        ¬ (isWrittenAsANumber (trim raw) = true ∧ TrunkTen raw))) ∧
    ∀ raw kind, (normalizeTypedHandle (Casing.toLowercase table wordFinal)
        (normalizeTypedHandle (Casing.toLowercase table wordFinal) raw kind).1 kind).1 =
        (normalizeTypedHandle (Casing.toLowercase table wordFinal) raw kind).1 ↔
      ¬ (kind = .phone ∧ TrunkTen raw) := by
  have hnormal : ∀ raw kind, (normalizeTypedHandle (Casing.toLowercase table wordFinal)
        (normalizeTypedHandle (Casing.toLowercase table wordFinal) raw kind).1 kind).1 =
        (normalizeTypedHandle (Casing.toLowercase table wordFinal) raw kind).1 ↔
      ¬ (kind = .phone ∧ TrunkTen raw) := by
    intro raw kind
    by_cases hkind : kind = .phone
    · subst hkind
      rw [normalizeTypedHandle_phone_iff]
      simp only [true_and]
    · exact iff_of_true (normalizeTypedHandle_other table wordFinal hkind raw)
        (fun h => hkind h.1)
  refine ⟨fun raw handle hparse => ?_, hnormal⟩
  obtain ⟨hne, hkind, hkey⟩ := parse_eq_some hparse
  obtain ⟨htrim, hsame⟩ := kindOf_key table wordFinal raw
  rw [← hkey] at htrim hsame
  have hphone : Handle.kindOf (trim raw) = .phone ↔ isWrittenAsANumber (trim raw) = true :=
    kindOf_eq_phone (trim raw)
  have hkeyne : handle.key ≠ "" := by
    intro hempty
    have hother : Handle.kindOf (trim raw) = .other := by
      rw [← hsame, hempty]
      decide
    rw [hother] at hkey
    exact hne (hkey.symm.trans hempty)
  have hagain : Handle.parse (Casing.toLowercase table wordFinal) handle.key =
      some (Handle.typed (Casing.toLowercase table wordFinal) handle.key handle.kind) := by
    rw [parse_trimmed htrim hkeyne, hsame, hkind]
  rw [hagain, ← hphone, ← hnormal, ← hkey]
  constructor
  · rintro ⟨again, heq, -, hsamekey⟩
    cases heq
    rw [hkind] at hsamekey
    exact hsamekey
  · intro hsamekey
    refine ⟨_, rfl, rfl, ?_⟩
    rw [← hkind] at hsamekey
    exact hsamekey

end fixed

theorem isWhitespace_of_isLower {c : Char} (h : c.isLower = true) : isWhitespace c = false := by
  rw [Char.isLower, Bool.and_eq_true, decide_eq_true_eq, decide_eq_true_eq] at h
  have hlo : 97 ≤ c.toNat := h.1
  have hhi : c.toNat ≤ 122 := h.2
  by_contra hspace
  rw [Bool.not_eq_false] at hspace
  unfold isWhitespace at hspace
  simp only [Bool.or_eq_true, Bool.and_eq_true, decide_eq_true_eq, beq_iff_eq] at hspace
  omega

/-- The letters lowered as ASCII lowers them, and capital sigma. -/
def asciiCasing : Casing.Table where
  lower c := if c = 'Σ' then ['σ'] else [c.toLower]
  ne_nil c := by split <;> exact List.cons_ne_nil _ _
  settled c d hd := by
    split at hd
    · obtain rfl := List.mem_singleton.mp hd
      decide
    · next hc =>
      obtain rfl := List.mem_singleton.mp hd
      have hsmall : ¬ c.toLower.isUpper = true := by simp
      have hsigma : c.toLower ≠ 'Σ' := by
        intro heq
        by_cases hupper : c.isUpper = true
        · have hlower : c.toLower.isLower = true := by simp [Char.isAlpha, hupper]
          rw [heq] at hlower
          exact absurd hlower (by decide)
        · exact hc ((Char.toLower_eq_of_not_isUpper hupper).symm.trans heq)
      rw [if_neg hsigma, Char.toLower_eq_of_not_isUpper hsmall]
  small c hascii hsmall := by
    have hsigma : c ≠ 'Σ' := by
      rintro rfl
      exact absurd hascii (by decide)
    rw [if_neg hsigma, Char.toLower_eq_of_not_isUpper (by simp [hsmall])]
  sigma := by decide
  space c hc d hd := by
    split at hd
    · obtain rfl := List.mem_singleton.mp hd
      decide
    · obtain rfl := List.mem_singleton.mp hd
      by_cases hupper : c.isUpper = true
      · exact isWhitespace_of_isLower (by simp [Char.isAlpha, hupper])
      · rw [Char.toLower_eq_of_not_isUpper hupper]
        exact hc

/-- A number written with a `+` before its trunk zero: its key is read as a US number. -/
theorem trunk_ten_key_moves :
    ¬ ∀ raw handle,
      Handle.parse (Casing.toLowercase asciiCasing (fun _ _ => false)) raw = some handle →
      ∃ again, Handle.parse (Casing.toLowercase asciiCasing (fun _ _ => false)) handle.key =
        some again ∧ again.kind = handle.kind ∧ again.key = handle.key := by
  intro h
  obtain ⟨again, hagain, -, hkey⟩ :=
    h "+0204567890" ⟨.phone, "0204567890", "+0204567890"⟩ (by decide +kernel)
  have hmoved : Handle.parse (Casing.toLowercase asciiCasing (fun _ _ => false)) "0204567890" =
      some ⟨.phone, "+10204567890", "0204567890"⟩ := by decide +kernel
  cases hmoved.symm.trans hagain
  exact absurd hkey (by decide)

end MessageCrate

import MessageCrate.Lib.Text

/- Addresses and their keys (`crates/libs/phone`, and the handle types of `crates/libs/ir`).

   `normalizeTypedHandle` is the one key a handle is stored and matched under. A phone
   number is keyed by E.164 when its parse is certain and by its digits as they stand when
   it is not; an email address in lower case; anything else as it is written.

   Correspondence (Rust ↔ Lean):
     `c.is_ascii_digit()`              ↔ `Char.isDigit`
     `str::to_lowercase`               ↔ the parameter `toLowercase`
     `String::default()`, `is_empty`   ↔ `""`

   What is proved: `normalizeTypedHandle_trim`, an address and the address trimmed have one
   key, whatever their type. -/
namespace MessageCrate
open Text

/-- Kind of a participant handle. -/
inductive HandleType where
  | phone
  | email
  | username
  | other
  deriving DecidableEq, Repr

/-- Platform identity stored on a handle, not the transport of one message. -/
inductive HandleService where
  | phone
  | whatsapp
  deriving DecidableEq, Repr

def HandleService.asStr : HandleService → String
  | .phone => "phone"
  | .whatsapp => "whatsapp"

/-- Everything but WhatsApp is the phone platform: SMS, iMessage and RCS are transports. -/
def HandleService.parse (s : String) : HandleService :=
  let s := toAsciiLower (trim s)
  if s = "whatsapp" ∨ s = "wa" then .whatsapp else .phone

@[simp] theorem HandleService.parse_asStr (s : HandleService) : parse s.asStr = s := by
  cases s <;> decide

/-- `s` trimmed, or `none` when blank. -/
def trimmed (s : String) : Option String := if trim s = "" then none else some (trim s)

/-- Region rules for a number. -/
inductive PhoneRegion where
  | usa
  | international
  deriving DecidableEq, Repr

/-- A value with a `+` before its first digit names its country. -/
def PhoneRegion.forRaw (raw : String) : PhoneRegion :=
  if (raw.toList.takeWhile (fun c => !c.isDigit)).contains '+' then .international else .usa

/-- The ASCII digits of a value. -/
def digitsOf (raw : String) : List Char := raw.toList.filter Char.isDigit

/-- The digits less a leading US country code `1`; `none` when fewer than four remain. -/
def sanitizeNumber (num : String) : Option String :=
  if num = "" then none
  else
    let digits := digitsOf num
    let digits := if digits.length = 11 ∧ digits.head? = some '1' then digits.tail else digits
    if digits.length < 4 then none else some (String.ofList digits)

/-- E.164 when the parse is unambiguous for the region, else the reason it is not. -/
def normalizeChecked (raw : String) (region : PhoneRegion) : Except String String :=
  let raw := trim raw
  if raw = "" then .error "empty phone"
  else
    let digits := digitsOf raw
    match region with
    | .usa =>
      if digits.length = 10 then .ok ("+1" ++ String.ofList digits)
      else if digits.length = 11 ∧ digits.head? = some '1' then .ok ("+" ++ String.ofList digits)
      else if digits = [] then .error "no digits"
      else .error "USA needs 10 digits or 11 starting with 1"
    | .international =>
      if raw.toList.contains '+' = false then .error "international mode requires a leading +"
      -- E.164 country codes never start with 0, the trunk prefix.
      else if digits.head? = some '0' then .error "international country code cannot start with 0"
      else if 8 ≤ digits.length ∧ digits.length ≤ 15 then .ok ("+" ++ String.ofList digits)
      else .error "international needs 8–15 digits after +"

/-- E.164 when unambiguous for the region, else the digits as they stand and a note. -/
def normalizeGuarded (raw : String) (region : PhoneRegion) : String × Option String :=
  match normalizeChecked raw region with
  | .ok e164 => (e164, none)
  | .error reason => ((sanitizeNumber raw).getD "", some reason)

section
variable (toLowercase : String → String)

/-- The key of an address of a type, and the note when a phone number's is uncertain. -/
def normalizeTypedHandle (raw : String) (handleType : HandleType) : String × Option String :=
  match handleType with
  | .phone =>
    let guarded := normalizeGuarded raw (PhoneRegion.forRaw raw)
    -- No usable digits: the raw value, unflagged.
    if guarded.1 = "" then (trim raw, none) else guarded
  | .email => (toLowercase (trim raw), none)
  | .username | .other => (trim raw, none)

end

/-- A character a written phone number may hold. -/
def isPhoneChar (c : Char) : Bool :=
  c.isDigit || ['+', '-', ' ', '(', ')', '.', '#', '*'].contains c

/-- A handle's type by its shape, when the source does not say. -/
def inferHandleTypeFromShape (handle : String) : HandleType :=
  let h := (trim handle).toList
  if h.contains '@' then .email
  else if h ≠ [] ∧ h.any Char.isDigit ∧ h.all isPhoneChar then .phone
  else .other

/-! Trimmed addresses. -/

theorem isDigit_of_isWhitespace {c : Char} (h : isWhitespace c = true) : c.isDigit = false := by
  by_contra hd
  rw [Bool.not_eq_false, Char.isDigit, Bool.and_eq_true, decide_eq_true_eq, decide_eq_true_eq] at hd
  obtain ⟨hlo, hhi⟩ := hd
  have hlo' : 48 ≤ c.toNat := hlo
  have hhi' : c.toNat ≤ 57 := hhi
  unfold isWhitespace at h
  simp only [Bool.or_eq_true, Bool.and_eq_true, decide_eq_true_eq, beq_iff_eq] at h
  omega

theorem isWhitespace_plus : isWhitespace '+' = false := by decide

/-- What trimming cuts off. -/
theorem exists_trim (s : String) : ∃ lead trail,
    s.toList = lead ++ (trim s).toList ++ trail ∧ (∀ c ∈ lead, isWhitespace c = true) ∧
      ∀ c ∈ trail, isWhitespace c = true := by
  refine ⟨s.toList.takeWhile isWhitespace,
    (s.toList.dropWhile isWhitespace).rtakeWhile isWhitespace, ?_, ?_, ?_⟩
  · have hmid : (trim s).toList =
        (s.toList.dropWhile isWhitespace).rdropWhile isWhitespace := by
      simp [trim, trimChars]
    rw [hmid, List.append_assoc, List.rdropWhile_append_rtakeWhile,
      List.takeWhile_append_dropWhile]
  · intro c hc
    exact List.mem_takeWhile_imp hc
  · intro c hc
    exact List.mem_rtakeWhile_imp hc

theorem digitsOf_trim (s : String) : digitsOf (trim s) = digitsOf s := by
  obtain ⟨lead, trail, hs, hlead, htrail⟩ := exists_trim s
  have hnone {l : List Char} (hl : ∀ c ∈ l, isWhitespace c = true) : l.filter Char.isDigit = [] :=
    List.filter_eq_nil_iff.mpr fun c hc => by simp [isDigit_of_isWhitespace (hl c hc)]
  unfold digitsOf
  rw [hs, List.filter_append, List.filter_append, hnone hlead, hnone htrail, List.nil_append,
    List.append_nil]

/-- White space at either end of a value hides no `+` and no digit. -/
theorem forRaw_trim (s : String) : PhoneRegion.forRaw (trim s) = PhoneRegion.forRaw s := by
  obtain ⟨lead, trail, hs, hlead, htrail⟩ := exists_trim s
  have hplus {l : List Char} (hl : ∀ c ∈ l, isWhitespace c = true) : '+' ∉ l := by
    intro h
    have := hl _ h
    rw [isWhitespace_plus] at this
    cases this
  have hcontains : (s.toList.takeWhile (fun c => !c.isDigit)).contains '+' =
      ((trim s).toList.takeWhile (fun c => !c.isDigit)).contains '+' := by
    rw [hs, List.append_assoc, List.takeWhile_append_of_pos]
    · apply Bool.eq_iff_iff.mpr
      simp only [List.contains_iff_mem, List.mem_append, hplus hlead, false_or]
      rw [List.takeWhile_append]
      split
      · -- No digit before the end, so what follows is white space.
        rw [List.mem_append]
        constructor
        · rintro (h | h)
          · rename_i hlen
            rw [List.takeWhile_eq_self_iff.mpr ?_]
            · exact h
            · intro c hc
              have := (List.takeWhile_prefix (fun c : Char => !c.isDigit)
                (l := (trim s).toList)).eq_of_length hlen
              rw [← this] at hc
              exact List.mem_takeWhile_imp (p := fun c : Char => !c.isDigit) hc
          · exact absurd ((List.takeWhile_sublist _).subset h) (hplus htrail)
        · exact fun h => Or.inl ((List.takeWhile_sublist _).subset h)
      · exact Iff.rfl
    · intro c hc
      rw [isDigit_of_isWhitespace (hlead c hc)]
      rfl
  unfold PhoneRegion.forRaw
  rw [hcontains]

theorem sanitizeNumber_trim (s : String) : sanitizeNumber (trim s) = sanitizeNumber s := by
  have hempty {t : String} (ht : digitsOf t = []) : sanitizeNumber t = none := by
    unfold sanitizeNumber
    simp [ht]
  by_cases hs : s = ""
  · subst hs
    rfl
  · by_cases htrim : trim s = ""
    · have hnone : digitsOf s = [] := by
        rw [← digitsOf_trim, htrim]
        rfl
      rw [hempty hnone, hempty ((digitsOf_trim s).trans hnone)]
    · unfold sanitizeNumber
      rw [if_neg hs, if_neg htrim, digitsOf_trim]

/-- **An address and the address trimmed have one key.** -/
theorem normalizeTypedHandle_trim (toLowercase : String → String) (raw : String)
    (handleType : HandleType) :
    normalizeTypedHandle toLowercase (trim raw) handleType =
      normalizeTypedHandle toLowercase raw handleType := by
  have hguarded (region : PhoneRegion) :
      normalizeGuarded (trim raw) region = normalizeGuarded raw region := by
    unfold normalizeGuarded normalizeChecked
    rw [trim_trim, sanitizeNumber_trim]
  unfold normalizeTypedHandle
  rw [forRaw_trim, hguarded, trim_trim]

end MessageCrate

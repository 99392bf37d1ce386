import MessageCrate.Lib.Utf8
import MessageCrate.Lib.Text

/- Character references in an SMS Backup & Restore attribute (sbr/src/read.rs).

   The reader looks for `&#` from a cursor of its own and keeps where the text not yet decoded
   starts; both are byte indices into the attribute. A reference that is well formed ends the
   text before it, which the HTML decoder reads (`html`, another crate's). A malformed one
   stays in that text.

     `decode_references`   ↔ `decodeReferences`, one turn of its loop in `decodeLoop`
     `numeric_reference`   ↔ `numericReference`
     `char::from_u32`      ↔ `fromU32`

   A slice off a character boundary is `none`, and so is a loop that is given too few turns.
   What the decoding should be is `Cut`: the attribute cut at its references, from the left. -/
namespace MessageCrate.Sbr

open Utf8

def u32Max : Nat := 4294967295

/-- `char::to_digit`. -/
def toDigit (radix : Nat) (c : Char) : Option Nat :=
  let digit : Option Nat :=
    if '0' ≤ c ∧ c ≤ '9' then some (c.toNat - 48)
    else if 'a' ≤ c ∧ c ≤ 'z' then some (c.toNat - 97 + 10)
    else if 'A' ≤ c ∧ c ≤ 'Z' then some (c.toNat - 65 + 10)
    else none
  digit.filter (· < radix)

def isDigit (radix : Nat) (c : Char) : Bool := (toDigit radix c).isSome

/-- One digit more of a `u32`; `none` once the number is past 32 bits. -/
def pushDigit (radix : Nat) (code : Option Nat) (c : Char) : Option Nat :=
  code.bind fun n => (toDigit radix c).bind fun d =>
    if n * radix + d ≤ u32Max then some (n * radix + d) else none

/-- `u32::from_str_radix` on a run of digits. -/
def fromStrRadix (radix : Nat) (run : List Char) : Option Nat :=
  run.foldl (pushDigit radix) (some 0)

/-- `char::from_u32`. -/
def fromU32 (code : Nat) : Option Char :=
  if code.isValidChar then some (Char.ofNat code) else none

/-- The radix a reference's digits are in, the bytes before them, and the digits with what
follows. -/
def radixOf : List Char → Nat × Nat × List Char
  | 'x' :: hex => (16, 3, hex)
  | 'X' :: hex => (16, 3, hex)
  | body => (10, 2, body)

/-- The code point and byte length of the reference that `s` starts with. The outer `none` is
a slice off a boundary. -/
def numericReference (s : List Char) : Option (Option (Nat × Nat)) :=
  match s with
  | '&' :: '#' :: body =>
    let (radix, before, digits) := radixOf body
    let count := (findChar (fun c => !isDigit radix c) digits).getD (size digits)
    if count = 0 then some none
    else do
      let rest ← dropBytes count digits
      if rest.head? ≠ some ';' then return none
      let run ← takeBytes count digits
      return some ((fromStrRadix radix run).getD u32Max, before + count + 1)
  | _ => some none

/-- The character of a reference with code point `code` that ends at `stop`, and where the
text after it starts: past the low half where it is the high half of a surrogate pair. -/
def character (raw : List Char) (code stop : Nat) : Option (Option Char × Nat) :=
  if 0xD800 ≤ code ∧ code ≤ 0xDBFF then do
    let after ← dropBytes stop raw
    let next ← numericReference after
    match next.filter (fun r => 0xDC00 ≤ r.1 ∧ r.1 ≤ 0xDFFF) with
    | some (low, lowLen) =>
      return (fromU32 (0x10000 + ((code - 0xD800) <<< 10) + (low - 0xDC00)), stop + lowLen)
    | none => return (none, stop)
  else some (fromU32 code, stop)

/-- What the loop carries: the text so far, the references dropped, where the text not yet
decoded starts, and where to look for the next reference. -/
structure Decoding where
  out : List Char
  dropped : Nat
  plain : Nat
  start : Nat

/-- `str::find("&#")`. -/
def findReference (s : List Char) : Option Nat :=
  (Text.splitOnceChars ['&', '#'] s).map (fun p => size p.1)

/-- One reference found at `found`: the text before it is decoded, and both cursors go past it. -/
def pushReference (html : List Char → List Char) (raw : List Char) (s : Decoding)
    (found code len : Nat) : Option Decoding := do
  let run ← slice raw s.plain found
  let (ch, stop) ← character raw code (found + len)
  match ch.filter (· ≠ '\x00') with
  | some c => return ⟨s.out ++ html run ++ [c], s.dropped, stop, stop⟩
  | none => return ⟨s.out ++ html run, s.dropped + 1, stop, stop⟩

def decodeLoop (html : List Char → List Char) (raw : List Char) :
    Nat → Decoding → Option (List Char × Nat)
  | 0, _ => none
  | turns + 1, s => do
    let rest ← dropBytes s.start raw
    match findReference rest with
    | none =>
      let tail ← dropBytes s.plain raw
      return (s.out ++ html tail, s.dropped)
    | some offset =>
      let here ← dropBytes (s.start + offset) raw
      match ← numericReference here with
      | none => decodeLoop html raw turns { s with start := s.start + offset + 2 }
      | some (code, len) =>
        decodeLoop html raw turns (← pushReference html raw s (s.start + offset) code len)

/-- `raw` decoded and the count of dropped references. The cursor moves by two bytes or more
a turn, so the loop ends within as many turns as there are bytes. -/
def decodeReferences (html : List Char → List Char) (raw : List Char) (dropped : Nat) :
    Option (List Char × Nat) :=
  decodeLoop html raw (size raw + 1) ⟨[], dropped, 0, 0⟩

/-! What it should be. -/

/-- The number that a run of digits writes. -/
def number (radix : Nat) (run : List Char) : Nat :=
  run.foldl (fun n c => n * radix + (toDigit radix c).getD 0) 0

/-- `w` is a well-formed numeric reference to code point `n`. -/
inductive Written : Nat → List Char → Prop
  | decimal {run : List Char} : run ≠ [] → (∀ c ∈ run, isDigit 10 c = true) →
      Written (number 10 run) ('&' :: '#' :: (run ++ [';']))
  | hex {x : Char} {run : List Char} : x = 'x' ∨ x = 'X' → run ≠ [] →
      (∀ c ∈ run, isDigit 16 c = true) →
      Written (number 16 run) ('&' :: '#' :: x :: (run ++ [';']))

/-- `s` starts with no well-formed reference. -/
def Unreferenced (s : List Char) : Prop := ∀ n w rest, Written n w → s ≠ w ++ rest

/-- No well-formed reference starts in `run` where `after` follows it. -/
def PlainBefore (run after : List Char) : Prop :=
  ∀ a b, run = a ++ b → b ≠ [] → Unreferenced (b ++ after)

/-- The UTF-16 units of a character. -/
def utf16 (c : Char) : List Nat :=
  if c.toNat < 0x10000 then [c.toNat]
  else [0xD800 + (c.toNat - 0x10000) / 0x400, 0xDC00 + (c.toNat - 0x10000) % 0x400]

/-- No character is a pair that starts with `n` where `rest` follows. -/
def Single (n : Nat) (rest : List Char) : Prop :=
  ∀ low w' rest' c, Written low w' → rest = w' ++ rest' → utf16 c ≠ [n, low]

/-- An attribute cut at its references: the text before each with its character (`none` where
it was dropped), then the text after the last. -/
structure Pieces where
  marks : List (List Char × Option Char)
  last : List Char

def Pieces.text (html : List Char → List Char) (p : Pieces) : List Char :=
  p.marks.flatMap (fun m => html m.1 ++ m.2.toList) ++ html p.last

def Pieces.dropped (p : Pieces) : Nat := p.marks.countP (fun m => m.2.isNone)

def Pieces.before (p : Pieces) (run : List Char) (ch : Option Char) : Pieces :=
  ⟨(run, ch) :: p.marks, p.last⟩

/-- The attribute cut at its references from the left: a character other than NUL, the two
halves of one character, or a reference that is dropped. -/
inductive Cut : List Char → Pieces → Prop
  | done {last : List Char} : PlainBefore last [] → Cut last ⟨[], last⟩
  | char {run w rest : List Char} {c : Char} {p : Pieces} :
      PlainBefore run (w ++ rest) → Written c.toNat w → c ≠ '\x00' → Cut rest p →
      Cut (run ++ (w ++ rest)) (p.before run (some c))
  | pair {run w w' rest : List Char} {high low : Nat} {c : Char} {p : Pieces} :
      PlainBefore run (w ++ (w' ++ rest)) → Written high w → Written low w' →
      utf16 c = [high, low] → Cut rest p →
      Cut (run ++ (w ++ (w' ++ rest))) (p.before run (some c))
  | drop {run w rest : List Char} {n : Nat} {p : Pieces} :
      PlainBefore run (w ++ rest) → Written n w → n = 0 ∨ ¬ n.isValidChar → Single n rest →
      Cut rest p → Cut (run ++ (w ++ rest)) (p.before run none)

/-! Digits. -/

theorem toDigit_lt {radix d : Nat} {c : Char} (h : toDigit radix c = some d) : d < radix := by
  simpa using (Option.filter_eq_some_iff.mp h).2

theorem number_append_le {radix : Nat} (hradix : 0 < radix) (run : List Char) :
    ∀ n, n ≤ run.foldl (fun n c => n * radix + (toDigit radix c).getD 0) n := by
  induction run with
  | nil => exact fun n => Nat.le_refl n
  | cons c run ih =>
    intro n
    have hmul : n * 1 ≤ n * radix := Nat.mul_le_mul_left n hradix
    have hstep := ih (n * radix + (toDigit radix c).getD 0)
    rw [List.foldl_cons]
    omega

theorem foldl_pushDigit_none (radix : Nat) (run : List Char) :
    run.foldl (pushDigit radix) none = none := by
  induction run with
  | nil => rfl
  | cons c run ih => exact ih

/-- A run of digits is read as the number it writes, unless that is past 32 bits. -/
theorem foldl_pushDigit {radix : Nat} (hradix : 0 < radix) {run : List Char}
    (hdigits : ∀ c ∈ run, isDigit radix c = true) : ∀ {n}, n ≤ u32Max →
      run.foldl (pushDigit radix) (some n) =
        let value := run.foldl (fun n c => n * radix + (toDigit radix c).getD 0) n
        if value ≤ u32Max then some value else none := by
  induction run with
  | nil => intro n hn; simp [hn]
  | cons c run ih =>
    intro n hn
    obtain ⟨d, hd⟩ := Option.isSome_iff_exists.mp (hdigits c List.mem_cons_self)
    have ih := ih (fun c' h => hdigits c' (List.mem_cons_of_mem _ h)) (n := n * radix + d)
    simp only [List.foldl_cons, hd, Option.getD_some]
    have hpush : pushDigit radix (some n) c =
        if n * radix + d ≤ u32Max then some (n * radix + d) else none := by
      simp [pushDigit, hd]
    rw [hpush]
    split
    · next hle => exact ih hle
    · next hlt =>
      have hgrow := number_append_le hradix run (n * radix + d)
      rw [foldl_pushDigit_none, if_neg (by omega)]

theorem getD_fromStrRadix {radix : Nat} (hradix : 0 < radix) {run : List Char}
    (hdigits : ∀ c ∈ run, isDigit radix c = true) :
    (fromStrRadix radix run).getD u32Max = min (number radix run) u32Max := by
  have hread := foldl_pushDigit hradix hdigits (n := 0) (by decide)
  rw [fromStrRadix, hread, number]
  simp only
  split
  · next hle => rw [Option.getD_some, Nat.min_eq_left hle]
  · next hlt => rw [Option.getD_none, Nat.min_eq_right (by omega)]

/-- A digit is neither the `x` of a hexadecimal reference nor the `;` that ends one. -/
theorem isDigit_ne {radix : Nat} (hradix : radix ≤ 16) {c : Char} (h : isDigit radix c = true) :
    c ≠ 'x' ∧ c ≠ 'X' ∧ c ≠ ';' := by
  obtain ⟨d, hd⟩ := Option.isSome_iff_exists.mp h
  have hlt := toDigit_lt hd
  have hsome := (Option.filter_eq_some_iff.mp hd).1
  refine ⟨?_, ?_, ?_⟩
  · rintro rfl
    obtain rfl : 33 = d := by simpa using hsome
    omega
  · rintro rfl
    obtain rfl : 33 = d := by simpa using hsome
    omega
  · rintro rfl
    simp at hsome

/-! One reference. -/

/-- The digits before a `;` are the run that is read, and what is read of them. -/
theorem takeWhile_digits {radix : Nat} (hradix : radix ≤ 16) {run : List Char}
    (hdigits : ∀ c ∈ run, isDigit radix c = true) (rest : List Char) :
    (run ++ ';' :: rest).takeWhile (isDigit radix) = run := by
  have hsemi : ¬ isDigit radix ';' = true := fun h => (isDigit_ne hradix h).2.2 rfl
  rw [List.takeWhile_append_of_pos hdigits, List.takeWhile_cons_of_neg hsemi, List.append_nil]

/-- `numeric_reference` past its radix. -/
theorem numericReference_body {body digits : List Char} {radix before : Nat}
    (hbody : radixOf body = (radix, before, digits)) :
    numericReference ('&' :: '#' :: body) =
      some (if digits.takeWhile (isDigit radix) ≠ [] ∧
          (digits.dropWhile (isDigit radix)).head? = some ';' then
        some ((fromStrRadix radix (digits.takeWhile (isDigit radix))).getD u32Max,
          before + size (digits.takeWhile (isDigit radix)) + 1)
      else none) := by
  have hcut : digits.takeWhile (isDigit radix) ++ digits.dropWhile (isDigit radix) = digits :=
    List.takeWhile_append_dropWhile
  have hcount : (findChar (fun c => !isDigit radix c) digits).getD (size digits) =
      size (digits.takeWhile (isDigit radix)) := by
    rw [getD_findChar]
    simp only [Bool.not_not]
  simp only [numericReference, hbody, hcount]
  generalize digits.takeWhile (isDigit radix) = run at *
  generalize digits.dropWhile (isDigit radix) = rest at *
  subst hcut
  rcases eq_or_ne run [] with rfl | hne
  · simp
  · have hpos := size_pos hne
    rw [if_neg (by omega)]
    simp only [dropBytes_size, takeBytes_size, Option.bind_eq_bind, Option.bind_some]
    by_cases hsemi : rest.head? = some ';'
    · simp [hne, hsemi]
    · simp [hsemi]

theorem Written.ne_nil {n : Nat} {w : List Char} (h : Written n w) : w ≠ [] := by
  cases h with
  | decimal _ _ => exact List.cons_ne_nil _ _
  | hex _ _ _ => exact List.cons_ne_nil _ _

theorem radixOf_decimal {run rest : List Char} (hne : run ≠ [])
    (hdigits : ∀ c ∈ run, isDigit 10 c = true) :
    radixOf (run ++ ';' :: rest) = (10, 2, run ++ ';' :: rest) := by
  obtain ⟨c, run, rfl⟩ := List.exists_cons_of_ne_nil hne
  have hc := isDigit_ne (by omega) (hdigits c List.mem_cons_self)
  simp [radixOf, hc.1, hc.2.1]

theorem radixOf_hex {x : Char} (hx : x = 'x' ∨ x = 'X') (digits : List Char) :
    radixOf (x :: digits) = (16, 3, digits) := by
  rcases hx with rfl | rfl
  · rfl
  · rfl

/-- A well-formed reference is read, a number past 32 bits as the largest. -/
theorem numericReference_written {n : Nat} {w : List Char} (h : Written n w) (rest : List Char) :
    numericReference (w ++ rest) = some (some (min n u32Max, size w)) := by
  cases h with
  | decimal hne hdigits =>
    next run =>
    have hsemi : ¬ isDigit 10 ';' = true := by decide
    have hsize : size ('&' :: '#' :: (run ++ [';'])) = 2 + size run + 1 := by
      simp [show Char.utf8Size '&' = 1 by decide, show Char.utf8Size '#' = 1 by decide,
        show Char.utf8Size ';' = 1 by decide]
      omega
    rw [List.cons_append, List.cons_append, List.append_assoc, List.singleton_append,
      numericReference_body (radixOf_decimal hne hdigits), takeWhile_digits (by omega) hdigits,
      List.dropWhile_append_of_pos hdigits, List.dropWhile_cons_of_neg hsemi, if_pos ⟨hne, rfl⟩,
      getD_fromStrRadix (by omega) hdigits, hsize]
  | hex hx hne hdigits =>
    next x run =>
    have hsemi : ¬ isDigit 16 ';' = true := by decide
    have hsize : size ('&' :: '#' :: x :: (run ++ [';'])) = 3 + size run + 1 := by
      have hxsize : x.utf8Size = 1 := by
        rcases hx with rfl | rfl
        · decide
        · decide
      simp [show Char.utf8Size '&' = 1 by decide, show Char.utf8Size '#' = 1 by decide,
        show Char.utf8Size ';' = 1 by decide, hxsize]
      omega
    rw [List.cons_append, List.cons_append, List.cons_append, List.append_assoc,
      List.singleton_append, numericReference_body (radixOf_hex hx _),
      takeWhile_digits (by omega) hdigits, List.dropWhile_append_of_pos hdigits,
      List.dropWhile_cons_of_neg hsemi, if_pos ⟨hne, rfl⟩, getD_fromStrRadix (by omega) hdigits,
      hsize]

theorem radixOf_cases (body : List Char) : radixOf body = (10, 2, body) ∨
    ∃ x digits, (x = 'x' ∨ x = 'X') ∧ body = x :: digits ∧ radixOf body = (16, 3, digits) := by
  fun_cases radixOf body with
  | case1 hex => exact .inr ⟨'x', hex, .inl rfl, rfl, rfl⟩
  | case2 hex => exact .inr ⟨'X', hex, .inr rfl, rfl, rfl⟩
  | case3 _ _ => exact .inl rfl

/-- Only a well-formed reference is read. -/
theorem numericReference_body_none {radix before : Nat} {body digits : List Char}
    (hbody : radixOf body = (radix, before, digits))
    (h : ∀ run rest, run ≠ [] → (∀ c ∈ run, isDigit radix c = true) →
      digits ≠ run ++ ';' :: rest) : numericReference ('&' :: '#' :: body) = some none := by
  have hcut : digits.takeWhile (isDigit radix) ++ digits.dropWhile (isDigit radix) = digits :=
    List.takeWhile_append_dropWhile
  have hdigits : ∀ c ∈ digits.takeWhile (isDigit radix), isDigit radix c = true :=
    fun c hc => List.mem_takeWhile_imp hc
  rw [numericReference_body hbody, if_neg]
  rintro ⟨hne, hsemi⟩
  obtain ⟨rest, hrest⟩ : ∃ rest, digits.dropWhile (isDigit radix) = ';' :: rest :=
    List.head?_eq_some_iff.mp hsemi
  exact h _ rest hne hdigits (by rw [← hrest, hcut])

theorem numericReference_unreferenced {s : List Char} (h : Unreferenced s) :
    numericReference s = some none := by
  by_cases hamp : ∃ body, s = '&' :: '#' :: body
  · obtain ⟨body, rfl⟩ := hamp
    rcases radixOf_cases body with hread | ⟨x, digits, hx, rfl, hread⟩
    · apply numericReference_body_none hread
      rintro run rest hne hdigits rfl
      exact h _ _ rest (.decimal hne hdigits) (by simp)
    · apply numericReference_body_none hread
      rintro run rest hne hdigits rfl
      exact h _ _ rest (.hex hx hne hdigits) (by simp)
  · fun_cases numericReference s with
    | case1 body => exact absurd ⟨body, rfl⟩ hamp
    | case2 body => exact absurd ⟨body, rfl⟩ hamp
    | case3 => rfl

theorem run_unique {radix : Nat} (hradix : radix ≤ 16) {run run' rest rest' : List Char}
    (hrun : ∀ c ∈ run, isDigit radix c = true) (hrun' : ∀ c ∈ run', isDigit radix c = true)
    (h : run ++ ';' :: rest = run' ++ ';' :: rest') : run = run' ∧ rest = rest' := by
  have htake := congrArg (List.takeWhile (isDigit radix)) h
  rw [takeWhile_digits hradix hrun, takeWhile_digits hradix hrun'] at htake
  subst htake
  simpa using h

/-- A run of decimal digits does not start as a hexadecimal reference does. -/
theorem decimal_ne_hex {run run' rest rest' : List Char} {x : Char} (hx : x = 'x' ∨ x = 'X')
    (hne : run ≠ []) (hrun : ∀ c ∈ run, isDigit 10 c = true) :
    run ++ ';' :: rest ≠ x :: (run' ++ ';' :: rest') := by
  obtain ⟨c, run, rfl⟩ := List.exists_cons_of_ne_nil hne
  have hc := isDigit_ne (by omega) (hrun c List.mem_cons_self)
  rw [List.cons_append]
  intro h
  obtain rfl : c = x := (List.cons.inj h).1
  rcases hx with hx | hx
  · exact hc.1 hx
  · exact hc.2.1 hx

/-- What a text starts with is one reference only. -/
theorem Written.unique {n n' : Nat} {w w' rest rest' : List Char} (h : Written n w)
    (h' : Written n' w') (heq : w ++ rest = w' ++ rest') : n = n' ∧ w = w' ∧ rest = rest' := by
  cases h with
  | decimal hne hrun =>
    cases h' with
    | decimal hne' hrun' =>
      simp only [List.cons_append, List.append_assoc, List.nil_append, List.cons.injEq,
        true_and] at heq
      obtain ⟨rfl, rfl⟩ := run_unique (by omega) hrun hrun' heq
      exact ⟨rfl, rfl, rfl⟩
    | hex hx _ _ =>
      simp only [List.cons_append, List.append_assoc, List.nil_append, List.cons.injEq,
        true_and] at heq
      exact absurd heq (decimal_ne_hex hx hne hrun)
  | hex hx hne hrun =>
    cases h' with
    | decimal hne' hrun' =>
      simp only [List.cons_append, List.append_assoc, List.nil_append, List.cons.injEq,
        true_and] at heq
      exact absurd heq.symm (decimal_ne_hex hx hne' hrun')
    | hex hx' hne' hrun' =>
      simp only [List.cons_append, List.append_assoc, List.nil_append, List.cons.injEq,
        true_and] at heq
      obtain ⟨rfl, hbody⟩ := heq
      obtain ⟨rfl, rfl⟩ := run_unique (by omega) hrun hrun' hbody
      exact ⟨rfl, rfl, rfl⟩

/-- Text before the first reference is the same however it is cut. -/
theorem plainBefore_unique {run run' w w' rest rest' : List Char} {n n' : Nat}
    (hplain : PlainBefore run (w ++ rest)) (hplain' : PlainBefore run' (w' ++ rest'))
    (hw : Written n w) (hw' : Written n' w')
    (h : run ++ (w ++ rest) = run' ++ (w' ++ rest')) :
    run = run' ∧ n = n' ∧ w = w' ∧ rest = rest' := by
  rcases List.append_eq_append_iff.mp h with ⟨b, rfl, hb⟩ | ⟨b, rfl, hb⟩
  · rcases eq_or_ne b [] with rfl | hne
    · rw [List.nil_append] at hb
      exact ⟨(List.append_nil _).symm, hw.unique hw' hb⟩
    · exact absurd hb.symm (hplain' run b rfl hne n w rest hw)
  · rcases eq_or_ne b [] with rfl | hne
    · rw [List.nil_append] at hb
      exact ⟨List.append_nil _, hw.unique hw' hb.symm⟩
    · exact absurd hb.symm (hplain run' b rfl hne n' w' rest' hw')

/-! Surrogates. -/

theorem utf16_pair {c : Char} {high low : Nat} (h : utf16 c = [high, low]) :
    0xD800 ≤ high ∧ high ≤ 0xDBFF ∧ 0xDC00 ≤ low ∧ low ≤ 0xDFFF ∧
      c.toNat = 0x10000 + (high - 0xD800) * 0x400 + (low - 0xDC00) := by
  have hmax : c.toNat < 0x110000 := by
    rcases c.valid with h | h
    · have : c.toNat = c.val.toNat := rfl
      omega
    · have : c.toNat = c.val.toNat := rfl
      omega
  rw [utf16] at h
  split at h
  · simp at h
  · obtain ⟨rfl, rfl⟩ := by simpa using h
    omega

/-- The two halves of a pair are the units of the character they make. -/
theorem fromU32_pair {high low : Nat} (hhigh : 0xD800 ≤ high ∧ high ≤ 0xDBFF)
    (hlow : 0xDC00 ≤ low ∧ low ≤ 0xDFFF) :
    ∃ c, fromU32 (0x10000 + ((high - 0xD800) <<< 10) + (low - 0xDC00)) = some c ∧
      utf16 c = [high, low] ∧ c ≠ '\x00' := by
  rw [Nat.shiftLeft_eq]
  have hvalid : (0x10000 + (high - 0xD800) * 2 ^ 10 + (low - 0xDC00)).isValidChar := by
    refine .inr ?_
    omega
  refine ⟨_, by rw [fromU32, if_pos hvalid], ?_⟩
  have hnat := Char.toNat_ofNat (0x10000 + (high - 0xD800) * 2 ^ 10 + (low - 0xDC00))
  rw [if_pos hvalid] at hnat
  generalize Char.ofNat (0x10000 + (high - 0xD800) * 2 ^ 10 + (low - 0xDC00)) = c at *
  constructor
  · rw [utf16, if_neg (by omega)]
    simp only [List.cons.injEq, and_true]
    omega
  · rintro rfl
    simp at hnat
    omega

end MessageCrate.Sbr

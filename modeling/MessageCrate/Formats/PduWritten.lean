import MessageCrate.Formats.WspValues
import MessageCrate.Lib.WireReads
import MessageCrate.Lib.Utf8Text

/- The values of an MMS PDU as they are written (go-sms-mms/src/testutil.rs), and the shapes that
   read them back (go-sms-mms/src/wsp.rs).

     `uintvar`, `value_length`          ↔ `uintvar`, `valueLength`
     `utf8_string`, `phone_address`     ↔ `utf8String`, `phoneAddress`

   1. Every number below 2^35 is read back from its uintvar (`reads_uintvar`), and a value length
      from its short or long form (`reads_valueLength`).
   2. A text without a NUL is read back up to it, less a quote at its start (`reads_textString`):
      the shape takes a first `"` or 0x7f for the mark of a quoted text.
   3. A length-prefixed value is read back where its body is (`reads_lengthPrefixed`). -/
namespace MessageCrate.Pdu

open Wire

/-! What is written. -/

/-- `s.as_bytes()`. -/
def asBytes (s : String) : List UInt8 := Utf8.encode s.toList

/-- The loop of `uintvar`: the lowest seven bits are pushed until none is left. -/
def pushSevens (v : Nat) (bytes : List UInt8) : List UInt8 :=
  if v = 0 then bytes else pushSevens (v / 128) (bytes ++ [UInt8.ofNat (v % 128 + 128)])
termination_by v

def uintvar (v : Nat) : List UInt8 := (pushSevens (v / 128) [UInt8.ofNat (v % 128)]).reverse

def valueLength (n : Nat) : List UInt8 := if n ≤ 30 then [UInt8.ofNat n] else 31 :: uintvar n

/-- A text in UTF-8 under its charset. -/
def utf8String (s : String) : List UInt8 :=
  valueLength (1 + (asBytes s).length + 1) ++ 0xea :: (asBytes s ++ [0])

def phoneAddress (a : String) : String :=
  if "/TYPE=".toList <:+: a.toList ∨ '@' ∈ a.toList then a else a ++ "/TYPE=PLMN"

/-! Numbers. -/

/-- The bytes of a uintvar before its last. -/
def sevens (v : Nat) : List UInt8 :=
  if v = 0 then [] else sevens (v / 128) ++ [UInt8.ofNat (v % 128 + 128)]
termination_by v

theorem reverse_pushSevens (v : Nat) (bytes : List UInt8) :
    (pushSevens v bytes).reverse = sevens v ++ bytes.reverse := by
  induction v using Nat.strongRecOn generalizing bytes with
  | ind v ih =>
    rw [pushSevens, sevens]
    split
    · rfl
    · rw [ih (v / 128) (by omega), List.reverse_append, List.append_assoc]
      rfl

theorem uintvar_eq (v : Nat) : uintvar v = sevens (v / 128) ++ [UInt8.ofNat (v % 128)] :=
  reverse_pushSevens ..

theorem length_sevens : ∀ {n v : Nat}, v < 128 ^ n → (sevens v).length ≤ n
  | 0, v, h => by
    have hv : v = 0 := by omega
    rw [hv, sevens, if_pos rfl]
    exact Nat.le_refl _
  | n + 1, v, h => by
    rw [sevens]
    split
    · exact Nat.zero_le _
    · have hdiv : v / 128 < 128 ^ n := by
        rw [Nat.div_lt_iff_lt_mul (by decide)]
        rwa [Nat.pow_succ] at h
      have := length_sevens hdiv
      rw [List.length_append, List.length_singleton]
      omega

/-- A byte of a uintvar that is not its last. -/
theorem run_uintvarLoop_high {start turns value x : Nat} {before bs after : List UInt8} {v : Nat}
    (hx : x < 128) (h : Run (Wsp.uintvarLoop start turns (value * 128 + x))
      (before ++ [UInt8.ofNat (x + 128)]) bs after v) :
    Run (Wsp.uintvarLoop start (turns + 1) value) before (UInt8.ofNat (x + 128) :: bs) after v := by
  have hbyte : (UInt8.ofNat (x + 128)).toNat = x + 128 := by
    rw [UInt8.toNat_ofNat']
    omega
  rw [Wsp.uintvarLoop]
  apply Run.cons_bind (Reads.nextByte _ _ _ _)
  have hlow : (x + 128) % 128 = x := by omega
  simp only [hbyte, hlow]
  rw [if_neg (by omega)]
  exact h

theorem run_uintvarLoop_low {start turns value x : Nat} {before after : List UInt8} (hx : x < 128) :
    Run (Wsp.uintvarLoop start (turns + 1) value) before [UInt8.ofNat x] after (value * 128 + x) := by
  have hbyte : (UInt8.ofNat x).toNat = x := by
    rw [UInt8.toNat_ofNat']
    omega
  rw [Wsp.uintvarLoop]
  apply Run.bind_end (Reads.nextByte _ _ _ _)
  have hlow : x % 128 = x := by omega
  simp only [hbyte, hlow]
  rw [if_pos hx]
  exact Run.pure _

/-- The loop comes through the first bytes of a number with the number. -/
theorem run_uintvarLoop_sevens {start turns v : Nat} (w : Nat) {before bs after : List UInt8}
    (h : Run (Wsp.uintvarLoop start turns w) (before ++ sevens w) bs after v) :
    Run (Wsp.uintvarLoop start ((sevens w).length + turns) 0) before (sevens w ++ bs) after v := by
  induction w using Nat.strongRecOn generalizing turns bs with
  | ind w ih =>
    rw [sevens] at h ⊢
    split
    · next hw =>
      rw [if_pos hw, List.append_nil] at h
      rw [List.length_nil, Nat.zero_add, List.nil_append]
      rwa [hw] at h
    · next hw =>
      rw [if_neg hw, ← List.append_assoc] at h
      rw [List.length_append, List.length_singleton, List.append_assoc, Nat.add_assoc,
        Nat.add_comm 1 turns]
      apply ih (w / 128) (by omega)
      apply run_uintvarLoop_high (Nat.mod_lt _ (by decide))
      have hdiv : w / 128 * 128 + w % 128 = w := by omega
      rwa [hdiv]

/-- **A number below 2^35 is read back from its uintvar.** -/
theorem reads_uintvar {v : Nat} (hv : v < 2 ^ 35) : Reads Wsp.uintvar (uintvar v) v := by
  apply Reads.position_bind
  intro start before after
  have hlen : (sevens (v / 128)).length ≤ 4 := by
    apply length_sevens
    omega
  obtain ⟨more, hmore⟩ : ∃ more, 5 = (sevens (v / 128)).length + (more + 1) :=
    ⟨4 - (sevens (v / 128)).length, by omega⟩
  rw [uintvar_eq, hmore]
  apply run_uintvarLoop_sevens
  have hsum : v / 128 * 128 + v % 128 = v := by omega
  have hlast : Run (Wsp.uintvarLoop start (more + 1) (v / 128)) (before ++ sevens (v / 128))
      [UInt8.ofNat (v % 128)] after (v / 128 * 128 + v % 128) :=
    run_uintvarLoop_low (Nat.mod_lt v (by decide))
  rwa [hsum] at hlast

theorem reads_valueLength {n : Nat} (hn : n < 2 ^ 35) : Reads Wsp.valueLength (valueLength n) n := by
  rw [valueLength]
  split
  · next hshort =>
    have hbyte : (UInt8.ofNat n).toNat = n := by
      rw [UInt8.toNat_ofNat']
      omega
    intro before after
    apply Run.bind_end (Reads.nextByte _ _ _ _)
    rw [if_pos (by omega), hbyte]
    exact Run.pure n
  · intro before after
    apply Run.cons_bind (Reads.nextByte _ _ _ _)
    rw [if_neg (by decide), if_pos rfl]
    exact reads_uintvar hn _ _

/-- A value length begins with a byte that no text and no token begins with. -/
theorem head_valueLength (n : Nat) : ∃ first rest, valueLength n = first :: rest ∧ first.toNat ≤ 31 := by
  rw [valueLength]
  split
  · refine ⟨UInt8.ofNat n, [], rfl, ?_⟩
    rw [UInt8.toNat_ofNat']
    omega
  · exact ⟨31, uintvar n, rfl, by decide⟩

theorem reads_shortInteger {b : UInt8} (hb : Wsp.isHigh b = true) :
    Reads Wsp.shortInteger [b] (b - 128) := by
  intro before after
  rw [Run, Wsp.shortInteger, getElem?_cursor]
  simp [hb]

theorem reads_shortInteger? {b : UInt8} (hb : Wsp.isHigh b = true) :
    Reads Wsp.shortInteger? [b] (some (b - 128)) := by
  intro before after
  rw [Run, Wsp.shortInteger?, reads_shortInteger hb before after]

theorem reads_integerValue {b : UInt8} (hb : Wsp.isHigh b = true) :
    Reads Wsp.integerValue [b] (b - 128).toNat := by
  apply Reads.peek_bind
  rw [if_pos (by simpa using hb)]
  exact (reads_shortInteger hb).map

theorem reads_longInteger (bs : List UInt8) (h0 : 0 < bs.length) (h30 : bs.length ≤ 30) :
    Reads Wsp.longInteger (UInt8.ofNat bs.length :: bs) (Wsp.bigEndian bs) := by
  have hbyte : (UInt8.ofNat bs.length).toNat = bs.length := by
    rw [UInt8.toNat_ofNat']
    omega
  have hne : ¬ (UInt8.ofNat bs.length = 0 ∨ 30 < (UInt8.ofNat bs.length).toNat) := by
    rintro (h | h)
    · have hzero : bs.length = 0 := by
        rw [← hbyte, h]
        rfl
      omega
    · omega
  apply Reads.cons_bind (Reads.nextByte _ _)
  rw [if_neg hne, hbyte]
  exact (Reads.take _ bs).map

/-! Text. -/

/-- A text less a quote at its start. -/
def unquotedBytes : List UInt8 → List UInt8
  | [] => []
  | b :: bs => if b = 0x7f ∨ b = 0x22 then bs else b :: bs

theorem textString_plain {data t rest : List UInt8} {pos start : Nat} (hpos : pos ≤ data.length)
    (hstart : Wsp.textStart data pos = start) (hdrop : data.drop start = t ++ 0 :: rest)
    (ht : 0 ∉ t) : Wsp.textString data pos = .ok (t, start + t.length + 1) := by
  have hget : ∀ j, data[start + j]? = (t ++ 0 :: rest)[j]? := by
    intro j
    rw [← hdrop, List.getElem?_drop]
  rw [Wsp.textString_ok hpos, hstart]
  refine ⟨t.length, ?_, ?_, ?_, rfl⟩
  · rw [hget, List.getElem?_append_right (Nat.le_refl _), Nat.sub_self]
    rfl
  · intro j hj h
    rw [hget, List.getElem?_append_left hj] at h
    exact ht (List.mem_of_getElem? h)
  · rw [hdrop, List.take_left]

/-- **A text without a NUL is read back up to it.** -/
theorem reads_textString {bs : List UInt8} (hbs : 0 ∉ bs) :
    Reads Wsp.textString (bs ++ [0]) (unquotedBytes bs) := by
  intro before after
  have hpos : before.length ≤ (before ++ (bs ++ [0] ++ after)).length := by
    rw [List.length_append]
    omega
  have hfirst := getElem?_cursor before (bs ++ [0] ++ after)
  have hdrop : (before ++ (bs ++ [0] ++ after)).drop before.length = bs ++ 0 :: after := by
    rw [List.drop_left, List.append_assoc]
    rfl
  rw [Run]
  cases bs with
  | nil =>
    have hstart : Wsp.textStart (before ++ ([] ++ [0] ++ after)) before.length = before.length := by
      rw [Wsp.textStart, hfirst]
      rfl
    exact textString_plain hpos hstart hdrop hbs
  | cons b bs =>
    have hbs' : 0 ∉ bs := fun h => hbs (List.mem_cons_of_mem b h)
    by_cases hquote : b = 0x7f ∨ b = 0x22
    · have hstart : Wsp.textStart (before ++ (b :: bs ++ [0] ++ after)) before.length =
          before.length + 1 := by
        rw [Wsp.textStart, hfirst]
        rcases hquote with rfl | rfl
        · rfl
        · rfl
      have hdrop' : (before ++ (b :: bs ++ [0] ++ after)).drop (before.length + 1) =
          bs ++ 0 :: after := by
        rw [← List.drop_drop, hdrop]
        rfl
      rw [textString_plain hpos hstart hdrop' hbs', unquotedBytes, if_pos hquote]
      simp only [List.length_append, List.length_cons, List.length_nil]
      congr 2
      omega
    · have hstart : Wsp.textStart (before ++ (b :: bs ++ [0] ++ after)) before.length =
          before.length := by
        rw [Wsp.textStart, hfirst, if_neg]
        intro h
        apply hquote
        rcases h with h | h
        · exact .inl (Option.some.inj h)
        · exact .inr (Option.some.inj h)
      rw [textString_plain hpos hstart hdrop hbs, unquotedBytes, if_neg hquote, List.length_append,
        List.length_singleton, Nat.add_assoc]

/-! Values behind their length. -/

theorem reads_lengthPrefixed {α : Type} (past : Option String) (mismatch : String)
    {body : Decoder α} {bs : List UInt8} {v : α} (hlen : bs.length < 2 ^ 35)
    (hbody : Reads body bs v) :
    Reads (Wsp.lengthPrefixed past mismatch body) (valueLength bs.length ++ bs) v := by
  intro before after
  have hrun := hbody (before ++ valueLength bs.length) after
  have hbytes : (before ++ valueLength bs.length) ++ (bs ++ after) =
      before ++ (valueLength bs.length ++ bs ++ after) := by
    simp only [List.append_assoc]
  have hbytes' : before ++ (valueLength bs.length ++ (bs ++ after)) =
      before ++ (valueLength bs.length ++ bs ++ after) := by
    rw [List.append_assoc]
  have hlength := reads_valueLength hlen before (bs ++ after)
  rw [Run, hbytes, List.length_append] at hrun
  rw [Run, hbytes'] at hlength
  rw [Run, List.length_append, ← Nat.add_assoc, Wsp.lengthPrefixed_ok]
  refine ⟨bs.length, before.length + (valueLength bs.length).length, hlength, ?_, hrun, rfl⟩
  intro _
  simp only [List.length_append]
  omega

/-- What a text comes to where it was written. -/
theorem reads_encodedString_utf8 {bs : List UInt8} (hbs : 0 ∉ bs) (hlen : bs.length < 2 ^ 34) :
    Reads Wsp.encodedString (valueLength (1 + bs.length + 1) ++ 0xea :: (bs ++ [0]))
      ⟨some 106, unquotedBytes bs⟩ := by
  have hbody : Reads Wsp.charsetText (0xea :: (bs ++ [0])) ⟨some 106, unquotedBytes bs⟩ :=
    Reads.cons_bind (reads_integerValue rfl) (reads_textString hbs).map
  have hlength : (0xea :: (bs ++ [0])).length = 1 + bs.length + 1 := by
    simp only [List.length_cons, List.length_append, List.length_nil]
    omega
  obtain ⟨first, rest, hhead, hfirst⟩ := head_valueLength (1 + bs.length + 1)
  have hread := reads_lengthPrefixed (some "encoded-string length past the end")
    "encoded-string length does not match its text" (by rw [hlength]; omega) hbody
  rw [hlength, hhead] at hread
  rw [hhead]
  apply Reads.peek_bind
  rw [if_pos (by simpa using hfirst)]
  exact hread

theorem reads_encodedString_text {first : UInt8} {bs : List UInt8} (hfirst : 31 < first.toNat)
    (hbs : 0 ∉ first :: bs) :
    Reads Wsp.encodedString (first :: bs ++ [0]) ⟨none, unquotedBytes (first :: bs)⟩ := by
  apply Reads.peek_bind
  rw [if_neg (by simpa using hfirst)]
  exact (reads_textString hbs).map

end MessageCrate.Pdu

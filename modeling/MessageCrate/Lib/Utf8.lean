import Mathlib

/- UTF-8 text read through its bytes.

   A cursor over the bytes of a text stands between two characters when the characters before
   it take as many bytes (`IsBoundary`). A test of bytes that answers alike for every byte of a
   character (`Agrees`) moves such a cursor over whole characters (`takeWhile_encode`), and a
   test for an ASCII character is one (`agrees_beq`): the bytes of every other character are
   128 and up. A slice between two boundaries is the characters between them
   (`slice_between`). -/
namespace Utf8

/-- The bytes of a text. -/
def encode (cs : List Char) : List UInt8 := cs.flatMap String.utf8EncodeChar

/-- How many bytes a text takes. -/
def size (cs : List Char) : Nat := (cs.map Char.utf8Size).sum

/-- The cursor `i` is before the first character, between two, or after the last. -/
def IsBoundary (cs : List Char) (i : Nat) : Prop := ∃ before after, cs = before ++ after ∧ i = size before

section encode
variable {c d : Char} {cs ds : List Char}

@[simp]
theorem encode_nil : encode [] = [] := rfl

theorem encode_cons : encode (c :: cs) = String.utf8EncodeChar c ++ encode cs := rfl

theorem encode_append : encode (cs ++ ds) = encode cs ++ encode ds := List.flatMap_append

@[simp]
theorem size_nil : size [] = 0 := rfl

@[simp]
theorem size_cons : size (c :: cs) = c.utf8Size + size cs := by simp [size]

@[simp]
theorem size_append : size (cs ++ ds) = size cs + size ds := by simp [size]

theorem length_encode (cs : List Char) : (encode cs).length = size cs := by
  induction cs with
  | nil => rfl
  | cons c cs ih => rw [encode_cons, List.length_append, ih, String.length_utf8EncodeChar, size_cons]

theorem size_pos (h : cs ≠ []) : 0 < size cs := by
  obtain ⟨c, cs, rfl⟩ := List.exists_cons_of_ne_nil h
  have := c.utf8Size_pos
  rw [size_cons]
  omega

/-- A character takes at least one byte. -/
theorem length_le_size (cs : List Char) : cs.length ≤ size cs := by
  induction cs with
  | nil => exact Nat.le_refl _
  | cons c cs ih =>
    have := c.utf8Size_pos
    rw [List.length_cons, size_cons]
    omega

theorem drop_encode : (encode (cs ++ ds)).drop (size cs) = encode ds := by
  rw [encode_append, ← length_encode, List.drop_left]

theorem getElem?_encode (i : Nat) : (encode (cs ++ ds))[size cs + i]? = (encode ds)[i]? := by
  rw [encode_append, ← length_encode, List.getElem?_append_right (by omega), Nat.add_sub_cancel_left]

/-! ASCII characters take one byte, and it is below 128. -/

theorem toNat_toUInt8 (h : c.toNat < 128) : c.toUInt8.toNat = c.toNat := by
  have hv : c.val.toNat = c.toNat := rfl
  rw [Char.toUInt8, UInt32.toNat_toUInt8]
  omega

theorem encodeChar_ascii (h : c.toNat < 128) : String.utf8EncodeChar c = [c.toUInt8] := by
  have hv : c.val.toNat ≤ 127 := by
    have : c.toNat = c.val.toNat := rfl
    omega
  rw [String.utf8EncodeChar, if_pos hv]
  rfl

theorem encodeChar_high (h : 128 ≤ c.toNat) : ∀ b ∈ String.utf8EncodeChar c, 128 ≤ b.toNat := by
  have hv : ¬ c.val.toNat ≤ 127 := by
    have : c.toNat = c.val.toNat := rfl
    omega
  rw [String.utf8EncodeChar, if_neg hv]
  split
  · simp only [List.mem_cons, List.not_mem_nil, or_false, forall_eq_or_imp, forall_eq,
      UInt8.toNat_ofNat']
    omega
  split
  · simp only [List.mem_cons, List.not_mem_nil, or_false, forall_eq_or_imp, forall_eq,
      UInt8.toNat_ofNat']
    omega
  · simp only [List.mem_cons, List.not_mem_nil, or_false, forall_eq_or_imp, forall_eq,
      UInt8.toNat_ofNat']
    omega

end encode

/-! Tests of bytes. -/

/-- Every byte of a character passes the test of bytes when the character passes its own. -/
def Agrees (keep : UInt8 → Bool) (keepChar : Char → Bool) : Prop :=
  ∀ c, ∀ b ∈ String.utf8EncodeChar c, keep b = keepChar c

section agrees
variable {keep keep' : UInt8 → Bool} {keepChar keepChar' : Char → Bool}

/-- The test for an ASCII character. -/
theorem agrees_beq {d : Char} (hd : d.toNat < 128) :
    Agrees (fun b => b == d.toUInt8) (fun c => c == d) := by
  intro c b hb
  have hbyte : d.toUInt8.toNat = d.toNat := toNat_toUInt8 hd
  rcases Nat.lt_or_ge c.toNat 128 with hc | hc
  · rw [encodeChar_ascii hc, List.mem_singleton] at hb
    rw [hb, Bool.eq_iff_iff, beq_iff_eq, beq_iff_eq, ← UInt8.toNat_inj, toNat_toUInt8 hc, hbyte,
      Char.toNat_inj]
  · have hhigh := encodeChar_high hc b hb
    have hne : b ≠ d.toUInt8 := by
      rintro rfl
      omega
    have hne' : c ≠ d := by
      rintro rfl
      omega
    simp [hne, hne']

theorem Agrees.not (h : Agrees keep keepChar) :
    Agrees (fun b => !keep b) (fun c => !keepChar c) := by
  intro c b hb
  simp only [h c b hb]

theorem Agrees.or (h : Agrees keep keepChar) (h' : Agrees keep' keepChar') :
    Agrees (fun b => keep b || keep' b) (fun c => keepChar c || keepChar' c) := by
  intro c b hb
  simp only [h c b hb, h' c b hb]

theorem Agrees.and (h : Agrees keep keepChar) (h' : Agrees keep' keepChar') :
    Agrees (fun b => keep b && keep' b) (fun c => keepChar c && keepChar' c) := by
  intro c b hb
  simp only [h c b hb, h' c b hb]

/-- The first byte of a text is its first character's. -/
theorem Agrees.head (h : Agrees keep keepChar) (cs : List Char) :
    (encode cs).head?.map keep = cs.head?.map keepChar := by
  cases cs with
  | nil => rfl
  | cons c cs =>
    obtain ⟨b, bs, hbs⟩ := List.exists_cons_of_ne_nil (String.utf8EncodeChar_ne_nil (c := c))
    have hb : keep b = keepChar c := h c b (by simp [hbs])
    simp [encode_cons, hbs, hb]

/-- **A test that agrees keeps whole characters.** -/
theorem takeWhile_encode (h : Agrees keep keepChar) (cs : List Char) :
    (encode cs).takeWhile keep = encode (cs.takeWhile keepChar) := by
  induction cs with
  | nil => rfl
  | cons c cs ih =>
    cases hc : keepChar c with
    | true =>
      have hall : ∀ b ∈ String.utf8EncodeChar c, keep b = true := fun b hb => (h c b hb).trans hc
      rw [encode_cons, List.takeWhile_append_of_pos hall, ih, List.takeWhile_cons_of_pos hc,
        encode_cons]
    | false =>
      obtain ⟨b, bs, hbs⟩ := List.exists_cons_of_ne_nil (String.utf8EncodeChar_ne_nil (c := c))
      have hb : ¬ keep b = true := by
        rw [h c b (by simp [hbs]), hc]
        exact Bool.false_ne_true
      rw [encode_cons, hbs, List.cons_append, List.takeWhile_cons_of_neg hb,
        List.takeWhile_cons_of_neg (by simp [hc]), encode_nil]

end agrees

/-! Slices. -/

/-- The characters past the first `n` bytes, when they end a character. -/
def dropBytes : Nat → List Char → Option (List Char)
  | 0, cs => some cs
  | _ + 1, [] => none
  | n + 1, c :: cs => if c.utf8Size ≤ n + 1 then dropBytes (n + 1 - c.utf8Size) cs else none

/-- The characters of the first `n` bytes, when they end a character. -/
def takeBytes : Nat → List Char → Option (List Char)
  | 0, _ => some []
  | _ + 1, [] => none
  | n + 1, c :: cs =>
    if c.utf8Size ≤ n + 1 then (takeBytes (n + 1 - c.utf8Size) cs).map (c :: ·) else none

/-- The text between two byte indices; `none` where one of them is past the end or inside a
character, or they are the wrong way round. -/
def slice (cs : List Char) (start stop : Nat) : Option (List Char) :=
  if start ≤ stop then (dropBytes start cs).bind (takeBytes (stop - start)) else none

/-- Where the first character that passes the test starts. -/
def findChar (p : Char → Bool) (cs : List Char) : Option Nat :=
  if cs.any p then some (size (cs.takeWhile (fun c => !p c))) else none

section slice
variable {before mid after : List Char}

theorem getD_findChar (p : Char → Bool) (cs : List Char) :
    (findChar p cs).getD (size cs) = size (cs.takeWhile (fun c => !p c)) := by
  rw [findChar]
  split
  · rfl
  · next hnone =>
    have hall : cs.takeWhile (fun c => !p c) = cs := by
      rw [List.takeWhile_eq_self_iff]
      intro c hc
      simpa using fun h => hnone (List.any_eq_true.mpr ⟨c, hc, h⟩)
    rw [hall]
    rfl

theorem dropBytes_size : dropBytes (size before) (before ++ after) = some after := by
  induction before with
  | nil => simp [dropBytes]
  | cons c before ih =>
    obtain ⟨n, hn⟩ : ∃ n, c.utf8Size + size before = n + 1 :=
      ⟨c.utf8Size + size before - 1, by have := c.utf8Size_pos; omega⟩
    rw [size_cons, hn, List.cons_append, dropBytes, if_pos (by omega),
      show n + 1 - c.utf8Size = size before by omega, ih]

theorem takeBytes_size : takeBytes (size mid) (mid ++ after) = some mid := by
  induction mid with
  | nil => simp [takeBytes]
  | cons c mid ih =>
    obtain ⟨n, hn⟩ : ∃ n, c.utf8Size + size mid = n + 1 :=
      ⟨c.utf8Size + size mid - 1, by have := c.utf8Size_pos; omega⟩
    rw [size_cons, hn, List.cons_append, takeBytes, if_pos (by omega),
      show n + 1 - c.utf8Size = size mid by omega, ih, Option.map_some]

/-- **A slice between two boundaries is what stands between them.** -/
theorem slice_between :
    slice (before ++ (mid ++ after)) (size before) (size before + size mid) = some mid := by
  rw [slice, if_pos (by omega), dropBytes_size, Nat.add_sub_cancel_left]
  exact takeBytes_size

end slice

/-! Decoding. -/

/-- The characters of the bytes; `lossy` says what bytes that are not UTF-8 are read as. -/
def fromUtf8Lossy (lossy : List UInt8 → List Char) (bs : List UInt8) : List Char :=
  match bs.toByteArray.utf8Decode? with
  | some cs => cs.toList
  | none => lossy bs

theorem fromUtf8Lossy_encode (lossy : List UInt8 → List Char) (cs : List Char) :
    fromUtf8Lossy lossy (encode cs) = cs := by
  have hdecode : (encode cs).toByteArray.utf8Decode? = some cs.toArray :=
    List.utf8Decode?_utf8Encode
  rw [fromUtf8Lossy, hdecode]

end Utf8

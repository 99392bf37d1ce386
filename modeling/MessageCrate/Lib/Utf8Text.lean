import MessageCrate.Lib.Utf8

/- Texts read back from their UTF-8 bytes.

   `decode` gives a text back (`decode_encode`) and reads nothing else (`encode_of_decode`). The
   code is a prefix code: bytes that begin another text's bytes and are a text begin that text
   (`prefix_of_encode_prefix`). So of the bytes of a text a first part that ends
   inside a character is no text (`decode_take_none`). -/
namespace Utf8

/-- The text that the bytes are, if they are one. -/
def decode (bs : List UInt8) : Option (List Char) := bs.toByteArray.utf8Decode?.map Array.toList

section
variable {c d : Char} {cs ds : List Char} {bs rest rest' : List UInt8} {k : Nat}

theorem toByteArray_encode (cs : List Char) : (encode cs).toByteArray = cs.utf8Encode := rfl

theorem decode_encode (cs : List Char) : decode (encode cs) = some cs := by
  rw [decode, toByteArray_encode, List.utf8Decode?_utf8Encode]
  simp

theorem encode_of_decode (h : decode bs = some cs) : bs = encode cs := by
  rw [decode, Option.map_eq_some_iff] at h
  obtain ⟨chars, hchars, rfl⟩ := h
  have hback := ByteArray.utf8Encode_get_utf8Decode? (b := bs.toByteArray) (h := by rw [hchars]; rfl)
  simp only [hchars, Option.get_some] at hback
  rw [← toByteArray_encode] at hback
  have hlist := congrArg (fun b => b.data.toList) hback
  simpa using hlist.symm

theorem encodeChar_append_inj (h : String.utf8EncodeChar c ++ rest = String.utf8EncodeChar d ++ rest') :
    c = d ∧ rest = rest' := by
  have hc := ByteArray.utf8DecodeChar?_utf8EncodeChar_append (b := rest.toByteArray) (c := c)
  have hd := ByteArray.utf8DecodeChar?_utf8EncodeChar_append (b := rest'.toByteArray) (c := d)
  rw [← List.toByteArray_append] at hc hd
  rw [h, hd] at hc
  cases Option.some.inj hc
  exact ⟨rfl, List.append_cancel_left h⟩

theorem prefix_of_encode_prefix : ∀ {cs ds : List Char}, encode cs <+: encode ds → cs <+: ds
  | [], _, _ => List.nil_prefix
  | c :: cs, [], h => by
    have hlength := h.length_le
    have := c.utf8Size_pos
    rw [length_encode, length_encode, size_cons, size_nil] at hlength
    omega
  | c :: cs, d :: ds, h => by
    obtain ⟨rest, hrest⟩ := h
    rw [encode_cons, encode_cons, List.append_assoc] at hrest
    obtain ⟨rfl, htail⟩ := encodeChar_append_inj hrest
    exact List.cons_prefix_cons.mpr ⟨rfl, prefix_of_encode_prefix ⟨rest, htail⟩⟩

theorem isBoundary_iff : IsBoundary cs k ↔ ∃ n < cs.length + 1, size (cs.take n) = k := by
  constructor
  · rintro ⟨before, after, rfl, rfl⟩
    refine ⟨before.length, ?_, by rw [List.take_left]⟩
    rw [List.length_append]
    omega
  · rintro ⟨n, -, rfl⟩
    exact ⟨cs.take n, cs.drop n, (List.take_append_drop n cs).symm, rfl⟩

/-- The first bytes of a text are a text between two characters. -/
theorem take_encode (before after : List Char) :
    (encode (before ++ after)).take (size before) = encode before := by
  rw [encode_append, ← length_encode before, List.take_left]

theorem mem_encode {b : UInt8} : b ∈ encode cs ↔ ∃ c ∈ cs, b ∈ String.utf8EncodeChar c :=
  List.mem_flatMap

/-- The byte of an ASCII character stands for that character only. -/
theorem notMem_encode (hd : d.toNat < 128) (h : d ∉ cs) : d.toUInt8 ∉ encode cs := by
  intro hmem
  obtain ⟨c, hc, hb⟩ := mem_encode.mp hmem
  by_cases hlow : c.toNat < 128
  · rw [encodeChar_ascii hlow, List.mem_singleton] at hb
    have hbyte := congrArg UInt8.toNat hb
    rw [toNat_toUInt8 hd, toNat_toUInt8 hlow] at hbyte
    have heq : d = c := Char.ext (UInt32.toNat_inj.mp hbyte)
    rw [heq] at h
    exact h hc
  · have hhigh := encodeChar_high (not_lt.mp hlow) _ hb
    rw [toNat_toUInt8 hd] at hhigh
    omega

theorem decode_take_none (hk : k ≤ size cs) (h : ¬ IsBoundary cs k) :
    decode ((encode cs).take k) = none := by
  cases hdecode : decode ((encode cs).take k) with
  | none => rfl
  | some ds =>
    have htake := encode_of_decode hdecode
    have hprefix : encode ds <+: encode cs := by
      rw [← htake]
      exact List.take_prefix k (encode cs)
    obtain ⟨after, rfl⟩ := prefix_of_encode_prefix hprefix
    refine absurd ⟨ds, after, rfl, ?_⟩ h
    have hlength := congrArg List.length htake
    rw [List.length_take, length_encode, length_encode] at hlength
    omega

end

end Utf8

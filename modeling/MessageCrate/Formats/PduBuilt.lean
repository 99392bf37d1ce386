import MessageCrate.Formats.Mms
import MessageCrate.Formats.PduWritten

/- MMS PDUs as a phone writes them (go-sms-mms/src/testutil.rs), decoded.

     `BuildPart`, `PduBuilder`, `build`     ↔ `BuildPart`, `PduBuilder`, `PduBuilder.build`
     `part_headers`                         ↔ `partHeaders`
     a builder's `from` and `to`            ↔ `sender`, `recipients`

   1. `reads_contentType`: a content type in general form is read back where its media and its
      parameters are.
   2. `reads_part`, `reads_multipart`: parts are read back one after another, each with the bytes
      its lengths give it.
   3. `decode_build`: a PDU is decoded to the message it was built of, whatever header lines stand
      in front of its content type. -/
namespace MessageCrate.Pdu

open Wire

/-! Texts. -/

/-- The standard library's readings: UTF-8 as it is, and whatever it makes of other bytes. -/
def stdLossy (invalid : List UInt8 → List Char) (utf16 : List Nat → String) : Wsp.Lossy where
  utf8 := fun bs => String.ofList (Utf8.fromUtf8Lossy invalid bs)
  utf16 := utf16

/-- A text less a quote at its start. -/
def unquotedChars : List Char → List Char
  | [] => []
  | c :: cs => if c = '\x7f' ∨ c = '"' then cs else c :: cs

def unquoted (s : String) : String := String.ofList (unquotedChars s.toList)

/-- A text that a NUL can end. -/
def NulFree (s : String) : Prop := '\x00' ∉ s.toList

instance (s : String) : Decidable (NulFree s) := inferInstanceAs (Decidable ('\x00' ∉ s.toList))

/-- A text that is not taken for a length. -/
def Spelled (s : String) : Prop := NulFree s ∧ 32 ≤ (s.toList.headD '\x00').toNat

instance (s : String) : Decidable (Spelled s) :=
  inferInstanceAs (Decidable (NulFree s ∧ 32 ≤ (s.toList.headD '\x00').toNat))

theorem Spelled.first {s : String} (h : Spelled s) : ∃ c cs, s.toList = c :: cs ∧ 32 ≤ c.toNat := by
  have hhead := h.2
  cases hs : s.toList with
  | nil =>
    rw [hs] at hhead
    exact absurd hhead (by decide)
  | cons c cs =>
    rw [hs] at hhead
    exact ⟨c, cs, rfl, hhead⟩

theorem unquotedBytes_encode (cs : List Char) :
    unquotedBytes (Utf8.encode cs) = Utf8.encode (unquotedChars cs) := by
  cases cs with
  | nil => rfl
  | cons c cs =>
    rw [Utf8.encode_cons, unquotedChars]
    rcases Nat.lt_or_ge c.toNat 128 with hlow | hhigh
    · have hbyte : ∀ d : Char, d.toNat < 128 → (c.toUInt8 = d.toUInt8 ↔ c = d) := by
        intro d hd
        rw [← UInt8.toNat_inj, Utf8.toNat_toUInt8 hlow, Utf8.toNat_toUInt8 hd, Char.toNat_inj]
      have hdel : c.toUInt8 = 0x7f ↔ c = '\x7f' := hbyte '\x7f' (by decide)
      have hquote : c.toUInt8 = 0x22 ↔ c = '"' := hbyte '"' (by decide)
      rw [Utf8.encodeChar_ascii hlow, List.singleton_append, unquotedBytes]
      by_cases h : c = '\x7f' ∨ c = '"'
      · rw [if_pos h, if_pos (h.imp hdel.mpr hquote.mpr)]
      · rw [if_neg h, Utf8.encode_cons, Utf8.encodeChar_ascii hlow, if_neg]
        · rfl
        · rintro (hb | hb)
          · exact h (.inl (hdel.mp hb))
          · exact h (.inr (hquote.mp hb))
    · obtain ⟨b, bs, hbs⟩ := List.exists_cons_of_ne_nil (String.utf8EncodeChar_ne_nil (c := c))
      have hb : 128 ≤ b.toNat := Utf8.encodeChar_high hhigh b (by rw [hbs]; exact List.mem_cons_self)
      rw [if_neg, Utf8.encode_cons, hbs, List.cons_append, unquotedBytes, if_neg]
      · rintro (rfl | rfl)
        · exact absurd hb (by decide)
        · exact absurd hb (by decide)
      · rintro (rfl | rfl)
        · exact absurd hhigh (by decide)
        · exact absurd hhigh (by decide)

theorem nul_notMem {s : String} (h : NulFree s) : 0 ∉ asBytes s :=
  Utf8.notMem_encode (d := '\x00') (by decide) h

/-- The first byte of a text that is spelled is no length and no token's. -/
theorem Spelled.head {s : String} (h : Spelled s) :
    ∃ first rest, asBytes s = first :: rest ∧ 31 < first.toNat := by
  obtain ⟨c, cs, hs, hc⟩ := h.first
  rw [asBytes, hs, Utf8.encode_cons]
  rcases Nat.lt_or_ge c.toNat 128 with hlow | hhigh
  · refine ⟨c.toUInt8, Utf8.encode cs, by rw [Utf8.encodeChar_ascii hlow]; rfl, ?_⟩
    rw [Utf8.toNat_toUInt8 hlow]
    omega
  · obtain ⟨b, bs, hbs⟩ := List.exists_cons_of_ne_nil (String.utf8EncodeChar_ne_nil (c := c))
    have hb := Utf8.encodeChar_high hhigh b (by rw [hbs]; exact List.mem_cons_self)
    exact ⟨b, bs ++ Utf8.encode cs, by rw [hbs]; rfl, by omega⟩

section readings
variable {invalid : List UInt8 → List Char} {utf16 : List Nat → String} {s : String}

theorem utf8_unquotedBytes : (stdLossy invalid utf16).utf8 (unquotedBytes (asBytes s)) = unquoted s := by
  show String.ofList (Utf8.fromUtf8Lossy invalid (unquotedBytes (Utf8.encode s.toList))) = unquoted s
  rw [unquotedBytes_encode, Utf8.fromUtf8Lossy_encode, unquoted]

theorem reads_lossyString (hs : NulFree s) :
    Reads (Wsp.lossyString (stdLossy invalid utf16)) (asBytes s ++ [0]) (unquoted s) := by
  have h := (reads_textString (nul_notMem hs)).map (g := (stdLossy invalid utf16).utf8)
  rwa [utf8_unquotedBytes] at h

/-- A text under the UTF-8 charset. -/
theorem reads_utf8String (hs : NulFree s) (hlen : (asBytes s).length < 2 ^ 34) :
    Reads (Mms.string (stdLossy invalid utf16)) (utf8String s) (unquoted s) := by
  have h := (reads_encodedString_utf8 (nul_notMem hs) hlen).map
    (g := Wsp.decodeText (stdLossy invalid utf16))
  have htext : Wsp.decodeText (stdLossy invalid utf16) ⟨some 106, unquotedBytes (asBytes s)⟩ =
      unquoted s := utf8_unquotedBytes
  rwa [htext] at h

/-- A text without a charset. -/
theorem reads_string (hs : Spelled s) :
    Reads (Mms.string (stdLossy invalid utf16)) (asBytes s ++ [0]) (unquoted s) := by
  obtain ⟨first, rest, hhead, hfirst⟩ := hs.head
  have hnul := nul_notMem hs.1
  have htext : Wsp.decodeText (stdLossy invalid utf16) ⟨none, unquotedBytes (asBytes s)⟩ =
      unquoted s := utf8_unquotedBytes
  rw [hhead] at hnul htext ⊢
  have h := (reads_encodedString_text hfirst hnul).map (g := Wsp.decodeText (stdLossy invalid utf16))
  rwa [htext] at h

end readings

/-! Content types. -/

section contentType
variable {lossy : Wsp.Lossy} {params : List (String × String)} {bs : List UInt8}

theorem reads_param {code : UInt8} {name v : String} {value : Decoder String}
    (hcode : Wsp.isHigh code = true)
    (hvalue : Wsp.paramValue lossy (code - 128).toNat = some (name, value)) (h : Reads value bs v) :
    Reads (Wsp.param lossy params) (code :: bs) (.inl (Wsp.insertParam params name v)) := by
  apply Reads.cons_bind (reads_shortInteger? hcode)
  simp only [hvalue]
  exact h.map

/-- Parameters one after another up to the declared end. -/
theorem run_params {before after : List UInt8} {params' : List (String × String)}
    (h : Turns (Wsp.param lossy) params bs params') :
    Run (whileLoop (Wsp.paramTurn lossy (before.length + bs.length)) params) before bs after
      params' := by
  have hlast : Run (Wsp.paramTurn lossy (before.length + bs.length) params') (before ++ bs) [] after
      (.inr params') := by
    apply Run.position_bind
    rw [if_pos (by rw [List.length_append])]
    exact Run.pure _
  have hturn : ∀ s pre cs post r, cs ≠ [] → pre.length + cs.length ≤ before.length + bs.length →
      Run (Wsp.param lossy s) pre cs post r →
      Run (Wsp.paramTurn lossy (before.length + bs.length) s) pre cs post r := by
    intro s pre cs post r hne hstop hrun
    have hpos := List.length_pos_iff.mpr hne
    apply Run.position_bind
    rw [if_neg (by omega)]
    exact hrun
  have hrun := h.run_whileLoop (Nat.le_refl _) hturn hlast
  rwa [List.append_nil] at hrun

/-- **A content type in general form.** -/
theorem reads_contentType {media : List UInt8} {name : String} {params' : List (String × String)}
    (hlen : (media ++ bs).length < 2 ^ 35) (hmedia : Reads (Wsp.prefixedMedia lossy) media name)
    (hparams : Turns (Wsp.param lossy) [] bs params') :
    Reads (Wsp.contentType lossy) (valueLength (media ++ bs).length ++ (media ++ bs))
      ⟨name, params'⟩ := by
  intro before after
  obtain ⟨first, rest, hhead, hfirst⟩ := head_valueLength (media ++ bs).length
  apply Run.peek_bind
  have hpeek : (valueLength (media ++ bs).length ++ (media ++ bs) ++ after).head? = some first := by
    rw [hhead]
    rfl
  rw [hpeek]
  show Run (if 31 < first.toNat then _ else _) _ _ _ _
  rw [if_neg (by omega)]
  apply Run.position_bind
  apply Run.bind (reads_valueLength hlen before _)
  apply Run.position_bind
  apply Run.check_bind
  · rw [Wsp.checkEnd_ok]
    refine ⟨fun _ => ?_, rfl⟩
    simp only [List.length_append]
    omega
  have hbody : Run (Wsp.prefixedBody lossy
      ((before ++ valueLength (media ++ bs).length).length + (media ++ bs).length))
      (before ++ valueLength (media ++ bs).length) (media ++ bs) after ⟨name, params'⟩ := by
    apply Run.bind (hmedia _ _)
    have hrun : Run _ (before ++ valueLength (media ++ bs).length ++ media) bs after params' :=
      run_params hparams
    have hstop : (before ++ valueLength (media ++ bs).length).length + (media ++ bs).length =
        (before ++ valueLength (media ++ bs).length ++ media).length + bs.length := by
      simp only [List.length_append]
      omega
    rw [hstop]
    exact hrun.map
  have hseek : Run (do
      seek ((before ++ valueLength (media ++ bs).length).length + (media ++ bs).length)
      return (⟨name, params'⟩ : Wsp.ContentType))
      (before ++ valueLength (media ++ bs).length ++ (media ++ bs)) [] after ⟨name, params'⟩ := by
    rw [Run, ← List.length_append]
    rfl
  have hall := hbody.bind (f := fun ct => do
      seek ((before ++ valueLength (media ++ bs).length).length + (media ++ bs).length)
      return ct) hseek
  rwa [List.append_nil] at hall

theorem reads_wellKnown {b : UInt8} {name : String} (hb : Wsp.isHigh b = true)
    (hname : Wsp.wellKnownContentTypes[(b - 128).toNat]? = some name) :
    Reads (Wsp.constrainedMedia lossy) [b] name := by
  apply Reads.peek_bind
  rw [if_pos (by simpa using hb)]
  apply Reads.position_bind
  intro offset
  have hpure : Reads (Wsp.wellKnown offset (b - 128).toNat) [] name := by
    rw [Wsp.wellKnown, hname]
    exact Reads.pure name
  exact Reads.bind (reads_shortInteger hb) hpure

theorem reads_prefixedMedia {first : UInt8} {name : String} (hfirst : 30 < first.toNat)
    (h : Reads (Wsp.constrainedMedia lossy) (first :: bs) name) :
    Reads (Wsp.prefixedMedia lossy) (first :: bs) name := by
  apply Reads.peek_bind
  rw [if_neg (by simpa using hfirst)]
  exact h

end contentType

/-! Parts. -/

structure BuildPart where
  contentType : String
  name : Option String
  charsetUtf8 : Bool
  data : List UInt8
  deriving DecidableEq

def mediaBytes (contentType : String) : List UInt8 :=
  if contentType = "text/plain" then [0x83]
  else if contentType = "image/jpeg" then [0x9e]
  else if contentType = "image/gif" then [0x9d]
  else if contentType = "image/png" then [0xa0]
  else asBytes contentType ++ [0]

/-- The Name parameter. -/
def nameParam : Option String → List UInt8
  | some n => 0x85 :: (asBytes n ++ [0])
  | none => []

/-- The Charset parameter of UTF-8. -/
def charsetParam (charsetUtf8 : Bool) : List UInt8 := if charsetUtf8 then [0x81, 0xea] else []

/-- A part's content type, without its length. -/
def contentTypeBytes (p : BuildPart) : List UInt8 :=
  mediaBytes p.contentType ++ (nameParam p.name ++ charsetParam p.charsetUtf8)

/-- The Content-ID, in a quoted text, and the Content-Location. -/
def nameHeaders : Option String → List UInt8
  | some n => 0xc0 :: 0x22 :: (asBytes ("<" ++ n ++ ">") ++ [0]) ++ 0x8e :: (asBytes n ++ [0])
  | none => []

def partHeaders (p : BuildPart) : List UInt8 :=
  valueLength (contentTypeBytes p).length ++ contentTypeBytes p ++ nameHeaders p.name

/-- The part that is read back. -/
def BuildPart.read (p : BuildPart) : Wsp.Part where
  contentType := ⟨Text.toAsciiLower (unquoted p.contentType),
    (if p.charsetUtf8 then [("Charset", "106")] else []) ++
      p.name.toList.map fun n => ("Name", unquoted n)⟩
  contentLocation := p.name.map unquoted
  contentId := p.name
  data := p.data

/-- A part whose texts can be told from the bytes around them and whose lengths fit a uintvar. -/
structure BuildPart.Fits (p : BuildPart) : Prop where
  media : Spelled p.contentType
  ascii : ∀ c ∈ p.contentType.toList.head?, c.toNat < 128
  name : ∀ n ∈ p.name, Spelled n
  headers : (partHeaders p).length < 2 ^ 35
  data : p.data.length < 2 ^ 35

section parts
variable {invalid : List UInt8 → List Char} {utf16 : List Nat → String} {p : BuildPart}

/-- The first byte of a media type that is spelled. -/
theorem asBytes_ascii {contentType : String} (h : Spelled contentType)
    (hascii : ∀ c ∈ contentType.toList.head?, c.toNat < 128) :
    ∃ first rest, asBytes contentType ++ [0] = first :: rest ∧ 32 ≤ first.toNat ∧ first.toNat < 128 := by
  obtain ⟨c, cs, hcs, hc⟩ := h.first
  have hlow : c.toNat < 128 := hascii c (by rw [hcs]; rfl)
  refine ⟨c.toUInt8, Utf8.encode cs ++ [0], ?_, ?_, ?_⟩
  · rw [asBytes, hcs, Utf8.encode_cons, Utf8.encodeChar_ascii hlow]
    rfl
  · rw [Utf8.toNat_toUInt8 hlow]
    exact hc
  · rw [Utf8.toNat_toUInt8 hlow]
    exact hlow

theorem reads_constrainedMedia {contentType : String} (h : Spelled contentType)
    (hascii : ∀ c ∈ contentType.toList.head?, c.toNat < 128) :
    Reads (Wsp.constrainedMedia (stdLossy invalid utf16)) (asBytes contentType ++ [0])
      (Text.toAsciiLower (unquoted contentType)) := by
  obtain ⟨first, rest, hhead, -, hlow⟩ := asBytes_ascii h hascii
  have htext : Reads (Wsp.lossyString (stdLossy invalid utf16) >>= fun x => pure (Text.toAsciiLower x))
      (asBytes contentType ++ [0]) (Text.toAsciiLower (unquoted contentType)) :=
    (reads_lossyString h.1).map
  rw [hhead] at htext ⊢
  apply Reads.peek_bind
  rw [if_neg]
  · exact htext
  · simp only [Option.any_some, Wsp.isHigh, decide_eq_true_eq]
    omega

theorem reads_media {contentType : String} (h : Spelled contentType)
    (hascii : ∀ c ∈ contentType.toList.head?, c.toNat < 128) :
    Reads (Wsp.prefixedMedia (stdLossy invalid utf16)) (mediaBytes contentType)
      (Text.toAsciiLower (unquoted contentType)) := by
  have hassigned : ∀ {b : UInt8} {name : String}, Wsp.isHigh b = true → 30 < b.toNat →
      Wsp.wellKnownContentTypes[(b - 128).toNat]? = some name →
      Text.toAsciiLower (unquoted name) = name →
      Reads (Wsp.prefixedMedia (stdLossy invalid utf16)) [b] (Text.toAsciiLower (unquoted name)) := by
    intro b name hb hfirst hname hlower
    rw [hlower]
    exact reads_prefixedMedia hfirst (reads_wellKnown hb hname)
  rw [mediaBytes]
  split
  · next heq =>
    rw [heq]
    exact hassigned rfl (by decide) rfl rfl
  split
  · next heq =>
    rw [heq]
    exact hassigned rfl (by decide) rfl rfl
  split
  · next heq =>
    rw [heq]
    exact hassigned rfl (by decide) rfl rfl
  split
  · next heq =>
    rw [heq]
    exact hassigned rfl (by decide) rfl rfl
  obtain ⟨first, rest, hhead, hfirst, -⟩ := asBytes_ascii h hascii
  have hread : Reads (Wsp.constrainedMedia (stdLossy invalid utf16)) (asBytes contentType ++ [0])
      (Text.toAsciiLower (unquoted contentType)) := reads_constrainedMedia h hascii
  rw [hhead] at hread ⊢
  exact reads_prefixedMedia (by omega) hread

theorem turns_nameParam {name : Option String} (hname : ∀ n ∈ name, Spelled n) :
    Turns (Wsp.param (stdLossy invalid utf16)) [] (nameParam name)
      (name.toList.map fun n => ("Name", unquoted n)) := by
  cases name with
  | none => exact .done []
  | some n => exact .one (List.cons_ne_nil _ _) (reads_param rfl rfl (reads_string (hname n rfl)))

/-- The parameters of a part. -/
theorem turns_params (hname : ∀ n ∈ p.name, Spelled n) :
    Turns (Wsp.param (stdLossy invalid utf16)) [] (nameParam p.name ++ charsetParam p.charsetUtf8)
      p.read.contentType.params := by
  have hnames : Turns (Wsp.param (stdLossy invalid utf16)) [] (nameParam p.name)
      (p.name.toList.map fun n => ("Name", unquoted n)) := turns_nameParam hname
  rw [BuildPart.read, charsetParam]
  split
  · have hvalue : Reads (do return toString (← Wsp.integerValue) : Decoder String) [0xea] "106" :=
      (reads_integerValue rfl).map
    refine hnames.append (.one (List.cons_ne_nil _ _) ?_)
    have hread : Reads (Wsp.param (stdLossy invalid utf16)
        (p.name.toList.map fun n => ("Name", unquoted n))) [0x81, 0xea]
        (.inl (Wsp.insertParam (p.name.toList.map fun n => ("Name", unquoted n)) "Charset" "106")) :=
      reads_param rfl rfl hvalue
    cases hn : p.name with
    | none =>
      rw [hn] at hread
      exact hread
    | some n =>
      rw [hn] at hread
      exact hread
  · rw [List.append_nil, List.nil_append]
    exact hnames

/-! The headers behind a part's content type. -/

theorem reads_contentLocation {n : String} {part : Wsp.Part} (hn : Spelled n) :
    Reads (Wsp.partHeader (stdLossy invalid utf16) part) (0x8e :: (asBytes n ++ [0]))
      (.inl { part with contentLocation := some (unquoted n) }) := by
  apply Reads.cons_bind (reads_shortInteger? rfl)
  exact (reads_string hn).map

theorem toList_angled (n : String) : ("<" ++ n ++ ">").toList = '<' :: (n.toList ++ ['>']) := by
  rw [String.toList_append, String.toList_append]
  rfl

theorem stripAngleBrackets_angled (n : String) : Wsp.stripAngleBrackets ("<" ++ n ++ ">") = n := by
  have htrim : Text.trimChars ('<' :: (n.toList ++ ['>'])) = '<' :: (n.toList ++ ['>']) := by
    apply Text.trimChars_eq_self
    · intro c hc
      rw [List.head?_cons, Option.mem_some_iff] at hc
      rw [← hc]
      decide
    · intro c hc
      rw [← List.cons_append, List.getLast?_concat, Option.mem_some_iff] at hc
      rw [← hc]
      decide
  have hcid : Wsp.stripStart "cid:".toList ('<' :: (n.toList ++ ['>'])) = '<' :: (n.toList ++ ['>']) :=
    rfl
  have hopen : Wsp.stripStart ['<'] ('<' :: (n.toList ++ ['>'])) = n.toList ++ ['>'] := rfl
  have hclose : Wsp.stripEnd ['>'] (n.toList ++ ['>']) = n.toList := by
    rw [Wsp.stripEnd, if_pos (List.isSuffixOf_iff_suffix.mpr ⟨n.toList, rfl⟩), List.length_append,
      List.length_singleton, Nat.add_sub_cancel, List.take_left]
  rw [Wsp.stripAngleBrackets, toList_angled, htrim, hcid, hopen, hclose, String.ofList_toList]

theorem reads_contentId {n : String} {part : Wsp.Part} (hn : NulFree n) :
    Reads (Wsp.partHeader (stdLossy invalid utf16) part)
      (0xc0 :: 0x22 :: (asBytes ("<" ++ n ++ ">") ++ [0])) (.inl { part with contentId := some n }) := by
  have hnul : 0 ∉ 0x22 :: asBytes ("<" ++ n ++ ">") := by
    intro hmem
    rcases List.mem_cons.mp hmem with h | h
    · exact absurd h (by decide)
    · refine nul_notMem ?_ h
      rw [NulFree, toList_angled]
      simpa [NulFree] using hn
  have hquoted : unquotedBytes (0x22 :: asBytes ("<" ++ n ++ ">")) = asBytes ("<" ++ n ++ ">") := rfl
  have hutf8 : (stdLossy invalid utf16).utf8 (asBytes ("<" ++ n ++ ">")) = "<" ++ n ++ ">" := by
    show String.ofList (Utf8.fromUtf8Lossy invalid (Utf8.encode ("<" ++ n ++ ">").toList)) = _
    rw [Utf8.fromUtf8Lossy_encode, String.ofList_toList]
  have htext : Reads (Wsp.lossyString (stdLossy invalid utf16))
      (0x22 :: asBytes ("<" ++ n ++ ">") ++ [0]) ("<" ++ n ++ ">") := by
    have h := (reads_textString hnul).map (g := (stdLossy invalid utf16).utf8)
    rwa [hquoted, hutf8] at h
  apply Reads.cons_bind (reads_shortInteger? rfl)
  have h := htext.map (g := fun raw =>
    (Sum.inl { part with contentId := some (Wsp.stripAngleBrackets raw) } : Wsp.Part ⊕ Wsp.Part))
  simp only [stripAngleBrackets_angled] at h
  exact h

theorem turns_nameHeaders {name : Option String} (hname : ∀ n ∈ name, Spelled n) (ct : Wsp.ContentType)
    (data : List UInt8) :
    Turns (Wsp.partHeader (stdLossy invalid utf16)) ⟨ct, none, none, data⟩ (nameHeaders name)
      ⟨ct, name.map unquoted, name, data⟩ := by
  cases name with
  | none => exact .done _
  | some n =>
    have hn := hname n rfl
    exact (Turns.one (List.cons_ne_nil _ _) (reads_contentId hn.1)).append
      (.one (List.cons_ne_nil _ _) (reads_contentLocation hn))

/-- Headers one after another to the end of the bytes. -/
theorem run_partTurns {lossy : Wsp.Lossy} {before bs : List UInt8} {part part' : Wsp.Part}
    (h : Turns (Wsp.partHeader lossy) part bs part') :
    Run (whileLoop (Wsp.partTurn lossy) part) before bs [] part' := by
  have hlast : Run (Wsp.partTurn lossy part') (before ++ bs) [] [] (.inr part') := by
    apply Run.size_bind
    apply Run.position_bind
    rw [if_pos (by simp only [List.append_nil]; exact Nat.le_refl _)]
    exact Run.pure _
  have hturn : ∀ s pre cs post r, cs ≠ [] → pre.length + cs.length ≤ before.length + bs.length →
      Run (Wsp.partHeader lossy s) pre cs post r → Run (Wsp.partTurn lossy s) pre cs post r := by
    intro s pre cs post r hne _ hrun
    have hpos := List.length_pos_iff.mpr hne
    apply Run.size_bind
    apply Run.position_bind
    rw [if_neg]
    · exact hrun
    · simp only [List.length_append]
      omega
  have hrun := h.run_whileLoop (Nat.le_refl _) hturn hlast
  rwa [List.append_nil] at hrun

/-- A part's headers are read to their end. -/
theorem partFromHeaders_partHeaders (h : p.Fits) :
    Wsp.partFromHeaders (stdLossy invalid utf16) (partHeaders p) p.data = .ok p.read := by
  have hheaders := h.headers
  rw [partHeaders, List.length_append, List.length_append] at hheaders
  have hct : Reads (Wsp.contentType (stdLossy invalid utf16))
      (valueLength (contentTypeBytes p).length ++ contentTypeBytes p) p.read.contentType :=
    reads_contentType (by rw [← contentTypeBytes]; omega) (reads_media h.media h.ascii)
      (turns_params h.name)
  have hrest : Run (whileLoop (Wsp.partTurn (stdLossy invalid utf16))
      ⟨p.read.contentType, none, none, p.data⟩)
      ([] ++ (valueLength (contentTypeBytes p).length ++ contentTypeBytes p)) (nameHeaders p.name) []
      p.read :=
    run_partTurns (turns_nameHeaders h.name p.read.contentType p.data)
  have hrun : Run (Wsp.partHeaders (stdLossy invalid utf16) p.data) [] (partHeaders p) [] p.read :=
    Run.bind (hct [] _) hrest
  rw [Run, List.nil_append, List.append_nil] at hrun
  exact congrArg (Except.map Prod.fst) hrun

/-- A part behind its two lengths. -/
def partBytes (p : BuildPart) : List UInt8 :=
  uintvar (partHeaders p).length ++ (uintvar p.data.length ++ (partHeaders p ++ p.data))

theorem reads_part (h : p.Fits) : Reads (Wsp.part (stdLossy invalid utf16)) (partBytes p) p.read := by
  apply Reads.bind (reads_uintvar h.headers)
  apply Reads.bind (reads_uintvar h.data)
  apply Reads.bind (Reads.take _ _)
  have hlift : Reads (Wsp.lift (Wsp.partFromHeaders (stdLossy invalid utf16) (partHeaders p) p.data))
      [] p.read := by
    rw [partFromHeaders_partHeaders h]
    exact Reads.pure p.read
  have hread := Reads.bind (f := fun data => Wsp.lift (Wsp.partFromHeaders (stdLossy invalid utf16)
    (partHeaders p) data)) (Reads.take "part data" p.data) hlift
  rwa [List.append_nil] at hread

theorem reads_parts (ps : List BuildPart) (h : ∀ p ∈ ps, p.Fits) :
    Reads (Wsp.parts (stdLossy invalid utf16) ps.length) (ps.flatMap partBytes)
      (ps.map BuildPart.read) := by
  induction ps with
  | nil => exact Reads.pure []
  | cons p ps ih =>
    apply Reads.bind (reads_part (h p List.mem_cons_self))
    exact (ih fun q hq => h q (List.mem_cons_of_mem p hq)).map

theorem reads_multipart {ps : List BuildPart} (hlen : ps.length ≤ 256) (h : ∀ p ∈ ps, p.Fits) :
    Reads (Wsp.multipart (stdLossy invalid utf16)) (uintvar ps.length ++ ps.flatMap partBytes)
      (ps.map BuildPart.read) := by
  apply Reads.position_bind
  intro start
  apply Reads.bind (reads_uintvar (by omega))
  rw [if_neg (by omega)]
  exact reads_parts ps h

end parts

/-! PDUs. -/

structure PduBuilder where
  sent : Bool
  sender : Option String
  recipients : List String
  cc : List String
  date : Option Nat
  subject : Option String
  parts : List BuildPart
  extraHeaders : List UInt8

/-- `(d as u32).to_be_bytes()`. -/
def beBytes (d : Nat) : List UInt8 :=
  [UInt8.ofNat (d / 2 ^ 24 % 256), UInt8.ofNat (d / 2 ^ 16 % 256), UInt8.ofNat (d / 2 ^ 8 % 256),
    UInt8.ofNat (d % 256)]

def dateHeader : Option Nat → List UInt8
  | some d => 0x85 :: 4 :: beBytes d
  | none => []

/-- The From header: an address, or the token that stands for it. -/
def fromHeader : Option String → List UInt8
  | some f =>
    0x89 :: UInt8.ofNat (1 + (utf8String (phoneAddress f)).length) :: 0x80 ::
      utf8String (phoneAddress f)
  | none => [0x89, 0x01, 0x81]

def addressHeader (code : UInt8) (a : String) : List UInt8 := code :: utf8String (phoneAddress a)

def subjectHeader : Option String → List UInt8
  | some s => 0x96 :: utf8String s
  | none => []

/-- multipart.related in general form, with Start and Type. -/
def relatedBytes : List UInt8 :=
  [0xb3] ++ (0x8a :: (asBytes "<smil.xml>" ++ [0]) ++ 0x89 :: (asBytes "application/smil" ++ [0]))

/-- Message-Type, Transaction-ID and MMS-Version. -/
def openingHeaders (sent : Bool) : List UInt8 :=
  [0x8c, if sent then 0x80 else 0x84] ++ (0x98 :: (asBytes "T1" ++ [0]) ++ [0x8d, 0x90])

/-- Message-Class, Message-ID, Priority and Delivery-Report. -/
def closingHeaders : List UInt8 :=
  [0x8a, 0x80] ++ (0x8b :: (asBytes "MSG-1" ++ [0]) ++ ([0x8f, 0x81] ++ [0x86, 0x81]))

/-- The headers up to the ones a builder is given as bytes. -/
def PduBuilder.ownHeaders (p : PduBuilder) : List UInt8 :=
  openingHeaders p.sent ++ (dateHeader p.date ++ (fromHeader p.sender ++
    (p.recipients.flatMap (addressHeader 0x97) ++ (p.cc.flatMap (addressHeader 0x82) ++
    (subjectHeader p.subject ++ closingHeaders)))))

def PduBuilder.build (p : PduBuilder) : List UInt8 :=
  p.ownHeaders ++ p.extraHeaders ++ 0x84 :: (valueLength relatedBytes.length ++ relatedBytes ++
    (uintvar p.parts.length ++ p.parts.flatMap partBytes))

/-- The message of a builder's own headers. -/
def PduBuilder.headerMessage (p : PduBuilder) : Mms.Message where
  messageType := some (if p.sent then .sendReq else .retrieveConf)
  sender := p.sender.map fun f => unquoted (phoneAddress f)
  recipients := p.recipients.map fun a => unquoted (phoneAddress a)
  cc := p.cc.map fun a => unquoted (phoneAddress a)
  bcc := []
  date := p.date.map (· % 2 ^ 32)
  subject := p.subject.map unquoted
  contentType := none
  headers := [("delivery-report", "no"), ("priority", "Normal"), ("message-id", "MSG-1"),
    ("message-class", "Personal"), ("mms-version", "1.0"), ("transaction-id", "T1")]
  parts := []

def relatedType : Wsp.ContentType where
  media := "application/vnd.wap.multipart.related"
  params := [("Type", "application/smil"), ("Start", "<smil.xml>")]

/-- A text that fits under its length. -/
def FitsLength (s : String) : Prop := NulFree s ∧ (asBytes s).length < 2 ^ 34

instance (s : String) : Decidable (FitsLength s) :=
  inferInstanceAs (Decidable (NulFree s ∧ (asBytes s).length < 2 ^ 34))

/-- What the PDU can hold: the length of From is one byte, and the decoder takes 256 parts. -/
structure PduBuilder.Fits (p : PduBuilder) : Prop where
  sender : ∀ f ∈ p.sender, NulFree f ∧ (asBytes (phoneAddress f)).length ≤ 26
  recipients : ∀ a ∈ p.recipients, FitsLength (phoneAddress a)
  cc : ∀ a ∈ p.cc, FitsLength (phoneAddress a)
  subject : ∀ s ∈ p.subject, FitsLength s
  count : p.parts.length ≤ 256
  parts : ∀ part ∈ p.parts, part.Fits

section headers
variable {invalid : List UInt8 → List Char} {utf16 : List Nat → String} {msg msg' : Mms.Message}

/-- A header line is one turn of the decoder's loop. -/
theorem turns_header {lossy : Wsp.Lossy} {code : UInt8} {bs : List UInt8} (hcode : Wsp.isHigh code = true)
    (hbody : code ≠ 0x84) (h : Reads (Mms.header lossy (code - 128).toNat msg) bs msg') :
    Turns (Mms.headerTurn lossy) msg (code :: bs) msg' := by
  apply Turns.one (List.cons_ne_nil _ _)
  have hfield : Reads Mms.fieldCode [code] (code - 128) :=
    (reads_shortInteger? hcode).bind_end (Reads.pure _)
  have hne : ¬ code - 128 = 4 := by
    intro heq
    apply hbody
    have hback := congrArg (· + 128) heq
    simpa using hback
  apply Reads.cons_bind hfield
  rw [if_neg hne]
  exact h.map

theorem bigEndian_beBytes (d : Nat) : Wsp.bigEndian (beBytes d) = d % 2 ^ 32 := by
  simp only [Wsp.bigEndian, beBytes, List.foldl_cons, List.foldl_nil, UInt8.toNat_ofNat',
    Wsp.u64Size]
  omega

theorem turns_date (d : Option Nat) (hmsg : msg.date = none) :
    Turns (Mms.headerTurn (stdLossy invalid utf16)) msg (dateHeader d)
      { msg with date := d.map (· % 2 ^ 32) } := by
  cases d with
  | none =>
    have hsame : { msg with date := none } = msg := by rw [← hmsg]
    rw [Option.map_none, hsame]
    exact .done msg
  | some d =>
    apply turns_header rfl (by decide)
    have h : Reads Wsp.longInteger (4 :: beBytes d) (Wsp.bigEndian (beBytes d)) :=
      reads_longInteger (beBytes d) (by simp [beBytes]) (by simp [beBytes])
    rw [bigEndian_beBytes] at h
    exact h.map

theorem length_phoneAddress_utf8 {s : String} (h : (asBytes s).length ≤ 26) :
    (utf8String s).length = (asBytes s).length + 3 := by
  rw [utf8String, valueLength, if_pos (by omega)]
  simp only [List.length_append, List.length_cons, List.length_nil]
  omega

theorem nulFree_phoneAddress {a : String} (h : NulFree a) : NulFree (phoneAddress a) := by
  rw [phoneAddress]
  split
  · exact h
  · rw [NulFree, String.toList_append, List.mem_append]
    rintro (hmem | hmem)
    · exact h hmem
    · exact absurd hmem (by decide)

theorem turns_from (f : Option String)
    (h : ∀ a ∈ f, NulFree a ∧ (asBytes (phoneAddress a)).length ≤ 26) :
    Turns (Mms.headerTurn (stdLossy invalid utf16)) msg (fromHeader f)
      { msg with sender := f.map fun a => unquoted (phoneAddress a) } := by
  cases f with
  | none =>
    apply turns_header rfl (by decide)
    have hbody : Reads (Mms.fromBody (stdLossy invalid utf16)) [0x81] none :=
      (Reads.nextByte _ _).bind_end (Reads.pure none)
    have hread := reads_lengthPrefixed (some "from length past the end")
      "from length does not match its address" (by decide) hbody
    exact hread.map
  | some f =>
    apply turns_header rfl (by decide)
    obtain ⟨hnul, hlen⟩ := h f rfl
    have hstring : Reads (Mms.string (stdLossy invalid utf16)) (utf8String (phoneAddress f))
        (unquoted (phoneAddress f)) :=
      reads_utf8String (nulFree_phoneAddress hnul) (by omega)
    have hbody : Reads (Mms.fromBody (stdLossy invalid utf16)) (0x80 :: utf8String (phoneAddress f))
        (some (unquoted (phoneAddress f))) :=
      Reads.cons_bind (Reads.nextByte _ _) hstring.map
    have hlength : (0x80 :: utf8String (phoneAddress f)).length = 1 + (utf8String (phoneAddress f)).length := by
      rw [List.length_cons, Nat.add_comm]
    have hread := reads_lengthPrefixed (some "from length past the end")
      "from length does not match its address"
      (by rw [hlength, length_phoneAddress_utf8 hlen]; omega) hbody
    rw [hlength, valueLength, if_pos (by rw [length_phoneAddress_utf8 hlen]; omega)] at hread
    exact hread.map

theorem turns_recipients (addresses : List String) (h : ∀ a ∈ addresses, FitsLength (phoneAddress a)) :
    Turns (Mms.headerTurn (stdLossy invalid utf16)) msg (addresses.flatMap (addressHeader 0x97))
      { msg with recipients := msg.recipients ++ addresses.map fun a => unquoted (phoneAddress a) } := by
  have hfold : ∀ (addresses : List String) (msg : Mms.Message),
      addresses.foldl (fun m a => { m with recipients := m.recipients ++ [unquoted (phoneAddress a)] })
        msg = { msg with
          recipients := msg.recipients ++ addresses.map fun a => unquoted (phoneAddress a) } := by
    intro addresses
    induction addresses with
    | nil =>
      intro msg
      simp
    | cons a addresses ih =>
      intro msg
      rw [List.foldl_cons, ih]
      simp
  rw [← hfold]
  apply Turns.flatMap
  intro a ha msg
  obtain ⟨hnul, hlen⟩ := h a ha
  exact turns_header rfl (by decide) (reads_utf8String hnul hlen).map

theorem turns_cc (addresses : List String) (h : ∀ a ∈ addresses, FitsLength (phoneAddress a)) :
    Turns (Mms.headerTurn (stdLossy invalid utf16)) msg (addresses.flatMap (addressHeader 0x82))
      { msg with cc := msg.cc ++ addresses.map fun a => unquoted (phoneAddress a) } := by
  have hfold : ∀ (addresses : List String) (msg : Mms.Message),
      addresses.foldl (fun m a => { m with cc := m.cc ++ [unquoted (phoneAddress a)] }) msg =
        { msg with cc := msg.cc ++ addresses.map fun a => unquoted (phoneAddress a) } := by
    intro addresses
    induction addresses with
    | nil =>
      intro msg
      simp
    | cons a addresses ih =>
      intro msg
      rw [List.foldl_cons, ih]
      simp
  rw [← hfold]
  apply Turns.flatMap
  intro a ha msg
  obtain ⟨hnul, hlen⟩ := h a ha
  exact turns_header rfl (by decide) (reads_utf8String hnul hlen).map

theorem turns_subject (s : Option String) (h : ∀ t ∈ s, FitsLength t) (hmsg : msg.subject = none) :
    Turns (Mms.headerTurn (stdLossy invalid utf16)) msg (subjectHeader s)
      { msg with subject := s.map unquoted } := by
  cases s with
  | none =>
    have hsame : { msg with subject := none } = msg := by rw [← hmsg]
    rw [Option.map_none, hsame]
    exact .done msg
  | some t =>
    obtain ⟨hnul, hlen⟩ := h t rfl
    exact turns_header rfl (by decide) (reads_utf8String hnul hlen).map

theorem insertParam_new {params : List (String × String)} {name : String} (v : String)
    (h : name ∉ params.map Prod.fst) : Wsp.insertParam params name v = (name, v) :: params := by
  rw [Wsp.insertParam, List.filter_eq_self.mpr]
  intro q hq
  simp only [bne_iff_ne, ne_eq]
  rintro rfl
  exact h (List.mem_map_of_mem hq)

/-- A header that is kept under its name, where no other has it. -/
theorem turns_kept {lossy : Wsp.Lossy} {code : UInt8} {bs : List UInt8} {name v : String}
    {shape : Mms.Shape} (kept : List (String × String)) (hmsg : msg.headers = kept)
    (hnew : name ∉ kept.map Prod.fst) (hcode : Wsp.isHigh code = true) (hbody : code ≠ 0x84)
    (hheader : Mms.header lossy (code - 128).toNat msg = (do
      return { msg with headers := Wsp.insertParam msg.headers name (← shape.read lossy) }))
    (h : Reads (shape.read lossy) bs v) :
    Turns (Mms.headerTurn lossy) msg (code :: bs) { msg with headers := (name, v) :: kept } := by
  apply turns_header hcode hbody
  rw [hheader, ← insertParam_new v hnew, ← hmsg]
  exact h.map

theorem reads_token {b : UInt8} {names : List String} (hb : Wsp.isHigh b = true) :
    Reads (Mms.token names) [b] (names.getD (b - 128).toNat ("0x" ++ Mms.hex2 (b - 128).toNat)) :=
  (reads_shortInteger hb).map

theorem turns_messageType {lossy : Wsp.Lossy} (sent : Bool) :
    Turns (Mms.headerTurn lossy) msg [0x8c, if sent then 0x80 else 0x84]
      { msg with messageType := some (if sent then .sendReq else .retrieveConf) } := by
  have htoken : ∀ {b : UInt8}, Wsp.isHigh b = true → Reads Mms.messageTypeToken [b] (b - 128) :=
    fun hb => (reads_shortInteger? hb).bind_end (Reads.pure _)
  apply turns_header rfl (by decide)
  cases sent with
  | true => exact (htoken rfl).map
  | false => exact (htoken rfl).map

theorem turns_openingHeaders (sent : Bool) :
    Turns (Mms.headerTurn (stdLossy invalid utf16)) Mms.Message.empty (openingHeaders sent)
      { Mms.Message.empty with
        messageType := some (if sent then .sendReq else .retrieveConf)
        headers := [("mms-version", "1.0"), ("transaction-id", "T1")] } := by
  have hid : Reads (Mms.Shape.string.read (stdLossy invalid utf16)) (asBytes "T1" ++ [0]) "T1" :=
    reads_string (by decide)
  have hversion : Reads (Mms.Shape.version.read (stdLossy invalid utf16)) [0x90] "1.0" :=
    (reads_shortInteger rfl).map
  apply (turns_messageType sent).append
  apply (turns_kept [] rfl (by simp) rfl (by decide) rfl hid).append
  exact turns_kept _ rfl (by simp) rfl (by decide) rfl hversion

theorem turns_closingHeaders
    (hmsg : msg.headers = [("mms-version", "1.0"), ("transaction-id", "T1")]) :
    Turns (Mms.headerTurn (stdLossy invalid utf16)) msg closingHeaders
      { msg with headers := [("delivery-report", "no"), ("priority", "Normal"),
        ("message-id", "MSG-1"), ("message-class", "Personal"), ("mms-version", "1.0"),
        ("transaction-id", "T1")] } := by
  have hclass : Reads (Mms.Shape.messageClass.read (stdLossy invalid utf16)) [0x80] "Personal" := by
    apply Reads.peek_bind
    exact reads_token rfl
  have hid : Reads (Mms.Shape.string.read (stdLossy invalid utf16)) (asBytes "MSG-1" ++ [0]) "MSG-1" :=
    reads_string (by decide)
  have hpriority : Reads ((Mms.Shape.token ["Low", "Normal", "High"]).read (stdLossy invalid utf16))
      [0x81] "Normal" := reads_token rfl
  have hreport : Reads (Mms.yesNoShape.read (stdLossy invalid utf16)) [0x81] "no" := reads_token rfl
  apply (turns_kept _ hmsg (by simp) rfl (by decide) rfl hclass).append
  apply (turns_kept _ rfl (by simp) rfl (by decide) rfl hid).append
  apply (turns_kept _ rfl (by simp) rfl (by decide) rfl hpriority).append
  exact turns_kept _ rfl (by simp) rfl (by decide) rfl hreport

/-- The headers of a builder are header lines, and say what it holds. -/
theorem turns_ownHeaders (p : PduBuilder) (h : p.Fits) :
    Turns (Mms.headerTurn (stdLossy invalid utf16)) Mms.Message.empty p.ownHeaders p.headerMessage := by
  apply (turns_openingHeaders p.sent).append
  apply (turns_date p.date rfl).append
  apply (turns_from p.sender h.sender).append
  apply (turns_recipients p.recipients h.recipients).append
  apply (turns_cc p.cc h.cc).append
  apply (turns_subject p.subject h.subject rfl).append
  exact turns_closingHeaders rfl

/-- The content type in front of the parts. -/
theorem reads_relatedType :
    Reads (Wsp.contentType (stdLossy invalid utf16)) (valueLength relatedBytes.length ++ relatedBytes)
      relatedType := by
  have hmedia : Reads (Wsp.prefixedMedia (stdLossy invalid utf16)) [0xb3]
      "application/vnd.wap.multipart.related" :=
    reads_prefixedMedia (by decide) (reads_wellKnown rfl rfl)
  have hstart : Reads (Wsp.paramText (stdLossy invalid utf16)) (asBytes "<smil.xml>" ++ [0])
      "<smil.xml>" := reads_string (by decide)
  have htype : Reads (Wsp.constrainedMedia (stdLossy invalid utf16)) (asBytes "application/smil" ++ [0])
      "application/smil" := by
    apply reads_constrainedMedia (by decide)
    intro c hc
    have hfirst : 'a' = c := Option.some.inj hc
    rw [← hfirst]
    decide
  apply reads_contentType (by decide) hmedia
  apply (Turns.one (List.cons_ne_nil _ _) (reads_param rfl rfl hstart)).append
  exact Turns.one (List.cons_ne_nil _ _) (reads_param rfl rfl htype)

/-- The content type and the parts end the loop. -/
theorem reads_lastTurn {ps : List BuildPart} (hcount : ps.length ≤ 256) (hparts : ∀ p ∈ ps, p.Fits) :
    Reads (Mms.headerTurn (stdLossy invalid utf16) msg)
      (0x84 :: (valueLength relatedBytes.length ++ relatedBytes ++
        (uintvar ps.length ++ ps.flatMap partBytes)))
      (.inr { msg with contentType := some relatedType, parts := ps.map BuildPart.read }) := by
  have hfield : Reads Mms.fieldCode [0x84] 0x04 :=
    (reads_shortInteger? rfl).bind_end (Reads.pure _)
  have hmultipart : relatedType.isMultipart = true := by decide
  apply Reads.cons_bind hfield
  rw [if_pos rfl]
  apply Reads.bind reads_relatedType
  rw [if_pos hmultipart]
  exact (reads_multipart hcount hparts).map

/-- **A PDU is decoded to the message it was built of.** -/
theorem decode_build (p : PduBuilder) (h : p.Fits)
    (hextra : Turns (Mms.headerTurn (stdLossy invalid utf16)) p.headerMessage p.extraHeaders msg) :
    Mms.decode (stdLossy invalid utf16) p.build =
      .ok { msg with contentType := some relatedType, parts := p.parts.map BuildPart.read } := by
  have hheaders : Turns (Mms.headerTurn (stdLossy invalid utf16)) Mms.Message.empty
      (p.ownHeaders ++ p.extraHeaders) msg := (turns_ownHeaders p h).append hextra
  have hlast : Reads (Mms.headerTurn (stdLossy invalid utf16) msg) _ (.inr _) :=
    reads_lastTurn h.count h.parts
  have hrun := hheaders.run_whileLoop (Nat.le_refl _) (fun _ _ _ _ _ _ _ hturn => hturn)
    (hlast ([] ++ (p.ownHeaders ++ p.extraHeaders)) [])
  rw [Run, List.nil_append, List.append_nil] at hrun
  have hhead : p.build.head? = some 0x8c := rfl
  rw [Mms.decode, if_neg (not_not.mpr hhead)]
  exact congrArg (Except.map Prod.fst) hrun

end headers

/-- A message with a Read-Report header and a text part. -/
def receivedPdu : PduBuilder where
  sent := false
  sender := some "+6595550100"
  recipients := ["+6595550101", "ann@example.com"]
  cc := []
  date := some 1609459200
  subject := some "hello"
  parts := [⟨"text/plain", some "text_0.txt", true, asBytes "good morning"⟩]
  extraHeaders := [0x90, 0x80]

theorem fits_receivedPdu : receivedPdu.Fits where
  sender := by
    intro f hf
    obtain rfl : "+6595550100" = f := Option.some.inj hf
    decide +kernel
  recipients := by decide +kernel
  cc := by decide +kernel
  subject := by
    intro s hs
    obtain rfl : "hello" = s := Option.some.inj hs
    decide +kernel
  count := by decide
  parts := by
    intro part hpart
    obtain rfl := List.mem_singleton.mp hpart
    exact {
      media := by decide
      ascii := by
        intro c hc
        obtain rfl : 't' = c := Option.some.inj hc
        decide
      name := by
        intro n hn
        obtain rfl : "text_0.txt" = n := Option.some.inj hn
        decide
      headers := by decide +kernel
      data := by decide +kernel }

theorem decode_build_received :
    Mms.decode (stdLossy (fun _ => []) fun _ => "") receivedPdu.build =
      .ok ⟨some .retrieveConf, some "+6595550100/TYPE=PLMN",
        ["+6595550101/TYPE=PLMN", "ann@example.com"], [], [], some 1609459200, some "hello",
        some relatedType, ("read-report", "yes") :: receivedPdu.headerMessage.headers,
        [⟨⟨"text/plain", [("Charset", "106"), ("Name", "text_0.txt")]⟩, some "text_0.txt",
          some "text_0.txt", asBytes "good morning"⟩]⟩ := by
  have hextra : Turns (Mms.headerTurn (stdLossy (fun _ => []) fun _ => "")) receivedPdu.headerMessage
      receivedPdu.extraHeaders { receivedPdu.headerMessage with
        headers := ("read-report", "yes") :: receivedPdu.headerMessage.headers } :=
    turns_kept _ rfl (by decide) rfl (by decide) rfl (reads_token rfl)
  have h := decode_build receivedPdu fits_receivedPdu hextra
  exact h

end MessageCrate.Pdu

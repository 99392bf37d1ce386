import MessageCrate.Formats.SbrRestore

/- What the parts of an MMS ask for when it is written back.

   A part is filled with what `Serving.serve` serves it (`injectFrom_spec`). It asks for the bytes
   that it was read with.

   1. `askedDigest_fields`: the digest by which a part asks is that of the bytes it was read with.
   2. `mmsBody_blobs`, `mem_attachmentsOf`: the attachments of the message are the parts that hold
      content and are neither text nor layout, each once. -/
namespace MessageCrate.Sbr
open MmsParts Utf8 Text Serving

variable {x : Crates} {files : String → Except String (Option (List UInt8))}
  {attachments : List IrAttachment} {contents : List (List UInt8)} {s : Pairing}

/-! What a part asks for. -/

/-- A part carries none of the attributes that the reader adds. -/
structure Unmarked (attrs : Attrs) : Prop where
  len : attrs "data_len" = none
  sha256 : attrs "data_sha256" = none
  decodeError : attrs "data_decode_error" = none

/-- The part is message text or layout. -/
def isWords (p : MmsPart) : Bool := isText p.ct.toList || isSmil p.ct.toList

/-- The bytes that a part which is an attachment was read with. -/
def askedBytes (x : Crates) (p : MmsPart) : Option (List UInt8) :=
  if isWords p then none
  else
    match decodePartData x p.data with
    | .ok bytes _ => some bytes
    | _ => none

/-- The attributes that are kept of a part. -/
def fields (x : Crates) (p : MmsPart) : Attrs := partFields p (decodePartData x p.data)

theorem toLower_of_isWhitespace {c : Char} (h : isWhitespace c = true) : c.toLower = c := by
  rw [Char.toLower, dif_neg]
  rintro ⟨hlo, hhi⟩
  have hlo : 65 ≤ c.toNat := hlo
  have hhi : c.toNat ≤ 90 := hhi
  unfold isWhitespace at h
  simp only [Bool.or_eq_true, Bool.and_eq_true, decide_eq_true_eq, beq_iff_eq] at h
  omega

/-- `null` is what is left of it without white space. -/
theorem trim_of_null {d : String} (h : eqIgnoreAsciiCase d.toList "null".toList = true) :
    trim d = d := by
  rw [eqIgnoreAsciiCase, beq_iff_eq] at h
  have hspace : ∀ c ∈ d.toList, isWhitespace c = false := by
    intro c hc
    by_contra hspace
    rw [Bool.not_eq_false] at hspace
    have hmem : c.toLower ∈ d.toList.map Char.toLower := List.mem_map_of_mem hc
    rw [h, toLower_of_isWhitespace hspace] at hmem
    have hnone : "null".toList.map Char.toLower |>.all (fun c => !isWhitespace c) := by decide
    have := List.all_eq_true.mp hnone c hmem
    rw [hspace] at this
    cases this
  rw [trim, trimChars_eq_self (fun c hc => hspace c (List.mem_of_mem_head? hc))
    fun c hc => hspace c (List.mem_of_getLast? hc), String.ofList_toList]

/-- Data that is decoded is not blank, and leaves bytes. -/
theorem decodePartData_present {raw : String} (h : decodePartData x raw ≠ .absent) :
    trim raw ≠ "" ∧ eqIgnoreAsciiCase raw.toList "null".toList = false := by
  rw [decodePartData] at h
  split at h
  · exact absurd rfl h
  · next hpresent =>
    rw [Bool.or_eq_true, decide_eq_true_eq, not_or] at hpresent
    refine ⟨hpresent.1, ?_⟩
    by_contra hnull
    rw [Bool.not_eq_false] at hnull
    exact hpresent.2 (by rw [trim_of_null hnull]; exact hnull)

theorem decodePartData_ok {raw digest : String} {bytes : List UInt8}
    (h : decodePartData x raw = .ok bytes digest) : digest = x.sha256Hex bytes ∧ bytes ≠ [] := by
  have hne : decodePartData x raw ≠ .absent := by
    rw [h]
    exact fun habsent => by cases habsent
  have hpresent := (decodePartData_present hne).1
  rw [decodePartData] at h
  split at h
  · cases h
  · split at h
    · next hdecode =>
      cases h
      exact ⟨rfl, x.decode64_ne_nil hdecode hpresent⟩
    · cases h

/-- What the reader adds to the attributes of a part. -/
def markers (decoded : DecodedPartData) (attrs : Attrs) : Attrs :=
  match decoded with
  | .ok bytes digestHex =>
    (attrs.insert "data_len" (toString bytes.length)).insert "data_sha256" digestHex
  | .err rawLen rawSha256 =>
    ((attrs.insert "data_len" (toString rawLen)).insert "data_sha256" rawSha256).insert
      "data_decode_error" "true"
  | .absent => attrs

theorem fields_eq (a : Attrs) :
    fields x (part a) = markers (decodePartData x (get a "data")) (a.remove "data") := by
  rw [fields, show decodePartData x (part a).data = decodePartData x (get a "data") from rfl]
  cases hd : a "data" with
  | none =>
    have hget : get a "data" = "" := by rw [get, hd, Option.getD_none]
    have habsent : decodePartData x "" = .absent := rfl
    simp only [partFields, show (part a).attrs "data" = none from hd, hget, habsent]
    rfl
  | some d =>
    have hget : get a "data" = d := by rw [get, hd, Option.getD_some]
    simp only [partFields, show (part a).attrs "data" = some d from hd, hget]
    split
    · rfl
    · next hblank =>
      by_cases habsent : decodePartData x d = .absent
      · rw [habsent]
        rfl
      · obtain ⟨htrim, hnull⟩ := decodePartData_present habsent
        rw [hnull] at hblank
        exact absurd (by simpa using htrim) hblank

variable {a : Attrs}

/-- Any other attribute is kept. -/
theorem fields_other {key : String} (hdata : key ≠ "data") (hlen : key ≠ "data_len")
    (hsha : key ≠ "data_sha256") (herror : key ≠ "data_decode_error") :
    fields x (part a) key = a key := by
  have hkept : a.remove "data" key = a key := Attrs.remove_of_ne hdata
  rw [fields_eq, ← hkept]
  cases decodePartData x (get a "data") with
  | absent => rfl
  | ok bytes digest =>
    rw [markers, Attrs.insert_of_ne hsha, Attrs.insert_of_ne hlen]
  | err rawLen rawSha256 =>
    rw [markers, Attrs.insert_of_ne herror, Attrs.insert_of_ne hsha, Attrs.insert_of_ne hlen]

theorem fields_data : fields x (part a) "data" = none := by
  have hgone : a.remove "data" "data" = none := Attrs.remove_self
  rw [fields_eq, ← hgone]
  cases decodePartData x (get a "data") with
  | absent => rfl
  | ok bytes digest =>
    rw [markers, Attrs.insert_of_ne (by decide), Attrs.insert_of_ne (by decide)]
  | err rawLen rawSha256 =>
    rw [markers, Attrs.insert_of_ne (by decide), Attrs.insert_of_ne (by decide),
      Attrs.insert_of_ne (by decide)]

/-- **A part asks by the digest of the bytes it was read with**, and any other part by none. -/
theorem askedDigest_fields (h : Unmarked a) :
    askedDigest (fields x (part a)) = (askedBytes x (part a)).map x.sha256Hex := by
  have hct : get (fields x (part a)) "ct" = (part a).ct := by
    rw [get, fields_other (by decide) (by decide) (by decide) (by decide)]
    rfl
  have hremoved : ∀ key, a key = none → a.remove "data" key = none := by
    intro key hkey
    rw [Attrs.remove, Function.update_apply]
    split
    · rfl
    · exact hkey
  rw [askedDigest, hct, askedBytes]
  cases hwords : isWords (part a) with
  | true =>
    rw [isWords] at hwords
    rw [hwords, Bool.true_or, if_pos rfl, if_pos rfl, Option.map_none]
  | false =>
    rw [isWords] at hwords
    rw [hwords, Bool.false_or, if_neg Bool.false_ne_true, fields_eq,
      show (part a).data = get a "data" from rfl]
    cases hdecode : decodePartData x (get a "data") with
    | absent =>
      rw [markers, hremoved _ h.sha256, hremoved _ h.decodeError]
      rfl
    | err rawLen rawSha256 =>
      rw [markers, Attrs.insert_self]
      rfl
    | ok bytes digest =>
      rw [markers, Attrs.insert_self, Attrs.insert_of_ne (by decide),
        Attrs.insert_of_ne (by decide), hremoved _ h.decodeError, (decodePartData_ok hdecode).1]
      have hblank := x.digest_not_blank bytes
      simp [hblank]

/-! What the parts are filled with. -/

/-- A part with what it is given. -/
def refill (x : Crates) (a : Attrs) (given : Option (List UInt8)) : Attrs :=
  match given with
  | none => withoutMarkers (fields x (part a))
  | some bytes => setData x (withoutMarkers (fields x (part a))) bytes

theorem exists_transformed (hforall : List.Forall₂ (Transformed x files) attachments contents)
    (index : Option Nat) :
    (index.bind (attachments[·]?) = none ∧ index.bind (contents[·]?) = none) ∨
      ∃ att bytes, index.bind (attachments[·]?) = some att ∧
        index.bind (contents[·]?) = some bytes ∧ Transformed x files att bytes := by
  cases index with
  | none => exact .inl ⟨rfl, rfl⟩
  | some i =>
    have hlen := hforall.length_eq
    simp only [Option.bind_some]
    by_cases hi : i < attachments.length
    · have hi' : i < contents.length := hlen ▸ hi
      exact .inr ⟨attachments[i], contents[i], List.getElem?_eq_getElem hi,
        List.getElem?_eq_getElem hi', hforall.get hi hi'⟩
    · exact .inl ⟨List.getElem?_eq_none (by omega), List.getElem?_eq_none (by omega)⟩

/-- The digests of what the parts ask for tell it apart from what the attachments hold. -/
def Distinguished (x : Crates) (contents : List (List UInt8)) (parts : List Attrs) : Prop :=
  ∀ a ∈ parts, ∀ asked, askedBytes x (part a) = some asked →
    ∀ bytes ∈ contents, x.sha256Hex bytes = x.sha256Hex asked → bytes = asked

theorem askedBytes_ne_nil {p : MmsPart} {asked : List UInt8} (h : askedBytes x p = some asked) :
    asked ≠ [] := by
  rw [askedBytes] at h
  split at h
  · cases h
  · split at h
    · next hdecode =>
      obtain rfl := Option.some.inj h
      exact (decodePartData_ok hdecode).2
    · cases h

/-- **The parts are filled with what they are served.** -/
theorem injectFrom_spec (hforall : List.Forall₂ (Transformed x files) attachments contents)
    {parts : List Attrs} (hunmarked : ∀ a ∈ parts, Unmarked a)
    (hdistinct : Distinguished x contents parts) (h : Tracks contents s) :
    injectFrom x files attachments s (parts.map fun a => fields x (part a)) =
      .ok (List.zipWith (refill x) parts
        (serve contents [] (leftOf contents s.consumed)
          (parts.map fun a => askedBytes x (part a)))) := by
  induction parts generalizing s with
  | nil => rfl
  | cons a parts ih =>
    have ih := fun {s} => @ih s (fun b hb => hunmarked b (List.mem_cons_of_mem _ hb))
      (fun b hb => hdistinct b (List.mem_cons_of_mem _ hb))
    have hdigest := askedDigest_fields (x := x) (hunmarked a List.mem_cons_self)
    rw [List.map_cons, List.map_cons, injectFrom, injectPart, hdigest]
    cases hasked : askedBytes x (part a) with
    | none =>
      show (do
        let rest ← injectFrom x files attachments s _
        return withoutMarkers (fields x (part a)) :: rest) = _
      rw [ih h]
      rfl
    | some asked =>
      have hcollide := hdistinct a List.mem_cons_self asked hasked
      obtain ⟨htracks, hgive⟩ := pick_spec hforall (askedBytes_ne_nil hasked) hcollide h
      rw [serve, hgive]
      simp only [Option.map_some]
      generalize pick attachments s (x.sha256Hex asked) = picked at htracks ⊢
      obtain ⟨hatt, hbytes⟩ | ⟨att, bytes, hatt, hbytes, hatransformed⟩ :=
        exists_transformed hforall picked.1
      · rw [hatt, hbytes]
        show (do
          let rest ← injectFrom x files attachments picked.2 _
          return withoutMarkers (fields x (part a)) :: rest) = _
        rw [ih htracks]
        rfl
      · rw [hatt, hbytes]
        simp only [hatransformed.loads]
        show (do
          let rest ← injectFrom x files attachments picked.2 _
          return setData x (withoutMarkers (fields x (part a))) bytes :: rest) = _
        rw [ih htracks]
        rfl

/-! The attachments of the message. -/

/-- What a part holds. -/
def content (x : Crates) (a : Attrs) : Content :=
  partContent x (part a) (decodePartData x (get a "data"))

/-- The parts that the attachments of the message are read from. -/
def attachmentsOf (x : Crates) (parts : List Attrs) : List Nat :=
  (bodyOf x.captures x.lossy ((parts.map part).map (shapedPart x))).attachments

theorem content_bytes {bytes : List UInt8} :
    askedBytes x (part a) = some bytes ↔ isWords (part a) = false ∧ content x a = .bytes bytes := by
  rw [askedBytes, content, partContent.eq_def, show (part a).data = get a "data" from rfl]
  cases hwords : isWords (part a) with
  | true => simp
  | false =>
    have htext : isText (part a).ct.toList = false := by
      rw [isWords, Bool.or_eq_false_iff] at hwords
      exact hwords.1
    simp only [htext, Bool.false_and, Bool.false_eq_true, if_false, true_and]
    cases hdecode : decodePartData x (get a "data") with
    | absent =>
      simp only [reduceCtorEq, false_iff]
      split
      · exact fun h => by cases h
      · exact fun h => by cases h
    | err rawLen rawSha256 => simp
    | ok decoded digest => simp [(decodePartData_ok hdecode).2]

/-- Text that a part holds is what its `text` says. -/
theorem content_text {t : Str} (h : content x a = .text t) :
    t = bodyWords x (get a "text") ∧ t.chars ≠ [] := by
  rw [content, partContent.eq_def, show (part a).text = get a "text" from rfl] at h
  generalize bodyWords x (get a "text") = words at h ⊢
  simp only at h
  split at h
  · next htext =>
    cases h
    exact ⟨rfl, by simpa using (Bool.and_eq_true_iff.mp htext).2⟩
  · split at h
    · split at h
      · cases h
      · split at h
        · cases h
        · next hne =>
          cases h
          exact ⟨rfl, by simpa using hne⟩
    · cases h
    · split at h
      · cases h
      · next hne =>
        cases h
        exact ⟨rfl, by simpa using hne⟩

/-- **The attachments of the message**: the parts with content that are neither text nor layout,
    each once. -/
theorem mem_attachmentsOf (x : Crates) (parts : List Attrs) :
    (attachmentsOf x parts).Nodup ∧ ∀ i, i ∈ attachmentsOf x parts ↔
      ∃ a, parts[i]? = some a ∧ isWords (part a) = false ∧
        ((∃ bytes, content x a = .bytes bytes) ∨ ∃ t, content x a = .text t) := by
  obtain ⟨pos, hpos⟩ := exists_ranked ((parts.map part).map (shapedPart x))
    (mentions x.captures x.lossy ((parts.map part).map (shapedPart x)))
  obtain ⟨order, hperm, -, hbody⟩ := bodyOf_ordered x.captures x.captures_le hpos
  have hattachments : attachmentsOf x parts =
      order.filter fun i => (classAt x.lossy ((parts.map part).map (shapedPart x)) i).isAttachment :=
    congrArg Body.attachments hbody
  rw [hattachments]
  refine ⟨(hperm.nodup_iff.mpr List.nodup_range).filter _, fun i => ?_⟩
  rw [List.mem_filter, hperm.mem_iff, List.mem_range, List.length_map, List.length_map, classAt,
    List.getElem?_map, List.getElem?_map]
  cases ha : parts[i]? with
  | none => simp [List.getElem?_eq_none_iff.mp ha]
  | some a =>
    have hi : i < parts.length := (List.getElem?_eq_some_iff.mp ha).1
    have hshape : (shapedPart x (part a)).content = content x a := rfl
    have htext : ∀ t, content x a = .text t → t.chars ≠ [] := fun t ht => (content_text ht).2
    simp only [Option.map_some, Option.getD_some, hi, true_and, Option.some.injEq, exists_eq_left',
      classOf, hshape]
    rw [show (shapedPart x (part a)).contentType = (part a).ct.toList from rfl, isWords]
    generalize content x a = c at htext ⊢
    cases isSmil (part a).ct.toList with
    | true => simp [Class.isAttachment]
    | false =>
      cases isText (part a).ct.toList with
      | true =>
        cases c with
        | none => simp [Class.isAttachment]
        | text t => simp [htext t rfl, Class.isAttachment]
        | bytes bs =>
          by_cases hbs : (x.lossy bs).chars = []
          · simp [hbs, Class.isAttachment]
          · simp [hbs, Class.isAttachment]
        | unreadable => simp [Class.isAttachment]
      | false =>
        cases c with
        | none => simp [Class.isAttachment]
        | text t => simp [htext t rfl, Class.isAttachment]
        | bytes bs => simp [Class.isAttachment]
        | unreadable => simp [Class.isAttachment]

/-- Every attachment is read from its part, in order. -/
theorem mmsBody_blobs (x : Crates) (parts : List Attrs) :
    (mmsBody x (parts.map part)).2.1.map some =
      (attachmentsOf x parts).map (blobAt x (parts.map part)) := by
  show ((attachmentsOf x parts).filterMap (blobAt x (parts.map part))).map some = _
  have hsome : ∀ i ∈ attachmentsOf x parts, (blobAt x (parts.map part) i).isSome = true := by
    intro i hi
    obtain ⟨a, ha, hwords, hcontent⟩ := ((mem_attachmentsOf x parts).2 i).mp hi
    rw [blobAt, List.getElem?_map, ha]
    simp only [Option.map_some, Option.bind_some, Option.isSome_map]
    rw [show (shapedPart x (part a)).content = content x a from rfl]
    obtain ⟨bytes, hbytes⟩ | ⟨t, ht⟩ := hcontent
    · rw [hbytes]
      have hasked := content_bytes.mpr ⟨hwords, hbytes⟩
      rw [askedBytes, hwords, if_neg Bool.false_ne_true] at hasked
      cases hdecode : decodePartData x (part a).data with
      | absent =>
        rw [hdecode] at hasked
        cases hasked
      | err rawLen rawSha256 =>
        rw [hdecode] at hasked
        cases hasked
      | ok decoded digest => rfl
    · rw [ht]
      rfl
  generalize attachmentsOf x parts = indexes at hsome ⊢
  induction indexes with
  | nil => rfl
  | cons i indexes ih =>
    obtain ⟨blob, hblob⟩ := Option.isSome_iff_exists.mp (hsome i List.mem_cons_self)
    rw [List.filterMap_cons_some hblob, List.map_cons, List.map_cons, hblob,
      ih fun j hj => hsome j (List.mem_cons_of_mem _ hj)]

end MessageCrate.Sbr

import MessageCrate.Formats.SbrAsked

/- Each part of an MMS gets its own bytes back.

   A part should be given what the transform left of its own attachment (`WrittenBack`).

   1. `served_iff`: the parts that are read from their `data` are served so exactly when each
      rewritten attachment is the first that is left for its part.
   2. `writtenBack_iff`: the parts are written back right exactly when that is so, text and layout
      say their words in `text`, and an attachment that is kept in `text` is left as it was. -/
namespace MessageCrate.Sbr
open MmsParts Utf8 Text Serving

variable {x : Crates} {files : String → Except String (Option (List UInt8))}
  {attachments : List IrAttachment} {contents : List (List UInt8)} {a : Attrs}

/-! Writing back. -/

/-- The words that a text or layout part says. -/
def partWords (x : Crates) (a : Attrs) : List Char :=
  match content x a with
  | .text t => t.chars
  | .bytes bytes => (x.lossy bytes).chars
  | _ => []

/-- What the transform left of the attachment that was read from a part. -/
def leftFor (x : Crates) (parts : List Attrs) (contents : List (List UInt8)) (i : Nat) :
    Option (List UInt8) :=
  ((attachmentsOf x parts).idxOf? i).bind (contents[·]?)

/-- A part that is written back says the bytes where it said them: in `data`, or in `text`. -/
def Bears (x : Crates) (a b : Attrs) (bytes : List UInt8) : Prop :=
  match content x a with
  | .bytes _ => b "data" = if bytes = [] then none else some (x.encode64 bytes)
  | _ => b "data" = none ∧ bytes = encode (bodyWords x (get b "text")).chars

/-- Each part is written with what the transform left of its own attachment. -/
structure WrittenBack (x : Crates) (parts : List Attrs) (contents : List (List UInt8))
    (restored : List Attrs) : Prop where
  length : restored.length = parts.length
  bytes : ∀ {i : Nat} {a b bytes}, parts[i]? = some a → restored[i]? = some b →
    leftFor x parts contents i = some bytes → Bears x a b bytes
  noData : ∀ {i : Nat} {b}, restored[i]? = some b → leftFor x parts contents i = none → b "data" = none
  words : ∀ {i : Nat} {a b}, parts[i]? = some a → restored[i]? = some b → isWords (part a) = true →
    b "text" = a "text" ∧ (partWords x a ≠ [] → partWords x b = partWords x a)

/-- What the transform left for the parts before one that were read from their `data`. -/
def takenBefore (x : Crates) (parts : List Attrs) (contents : List (List UInt8)) (i : Nat) :
    List (List UInt8) :=
  (List.range i).filterMap fun j =>
    (parts[j]?.bind fun a => askedBytes x (part a)).bind fun _ => leftFor x parts contents j

/-- When the parts can be written back. -/
structure Writable (x : Crates) (parts : List Attrs) (contents : List (List UInt8)) : Prop where
  /-- A text or layout part with words in its `data` says the same in its `text`. -/
  words : ∀ {a bytes}, a ∈ parts → isWords (part a) = true → content x a = .bytes bytes →
    (x.lossy bytes).chars ≠ [] → (x.lossy bytes).chars = (bodyWords x (get a "text")).chars
  /-- An attachment that is read from a part's `text` is left as it was. -/
  texts : ∀ {i : Nat} {a t bytes}, parts[i]? = some a → content x a = .text t →
    leftFor x parts contents i = some bytes → bytes = encode t.chars
  /-- The bytes of a rewritten attachment are no attachment's now, and it is the first that is
  left once those of the parts before its own are taken away. -/
  rewritten : ∀ {i : Nat} {a asked bytes}, parts[i]? = some a → askedBytes x (part a) = some asked →
    leftFor x parts contents i = some bytes →
      Right contents [] (contents.diff (takenBefore x parts contents i)) asked bytes

section
variable {parts : List Attrs} {b : Attrs} {given : Option (List UInt8)}

theorem refill_other {key : String} (hdata : key ≠ "data") (hlen : key ≠ "data_len")
    (hsha : key ≠ "data_sha256") (herror : key ≠ "data_decode_error") :
    refill x a given key = a key := by
  have hbare : withoutMarkers (fields x (part a)) key = a key := by
    rw [withoutMarkers, Attrs.remove_of_ne herror, Attrs.remove_of_ne hsha, Attrs.remove_of_ne hlen,
      fields_other hdata hlen hsha herror]
  cases given with
  | none => exact hbare
  | some bytes =>
    rw [refill, setData]
    split
    · exact hbare
    · rw [Attrs.insert_of_ne hdata, hbare]

theorem refill_data :
    refill x a given "data" = given.bind fun bytes =>
      if bytes = [] then none else some (x.encode64 bytes) := by
  have hbare : withoutMarkers (fields x (part a)) "data" = none := by
    rw [withoutMarkers, Attrs.remove_of_ne (by decide), Attrs.remove_of_ne (by decide),
      Attrs.remove_of_ne (by decide), fields_data]
  cases given with
  | none => exact hbare
  | some bytes =>
    rw [refill, setData, Option.bind_some]
    cases bytes with
    | nil => exact hbare
    | cons byte bytes => exact Attrs.insert_self

/-- What is written tells what was given. -/
theorem refill_data_inj {bytes asked : List UInt8}
    (h : refill x a (some bytes) "data" =
      if asked = [] then none else some (x.encode64 asked)) : bytes = asked := by
  rw [refill_data, Option.bind_some] at h
  split at h
  · next hbytes =>
    split at h
    · next hasked => rw [hbytes, hasked]
    · cases h
  · split at h
    · cases h
    · have hdecode := congrArg x.decode64 (Option.some.inj h)
      rw [x.decode64_encode64, x.decode64_encode64] at hdecode
      exact Option.some.inj hdecode

/-- What is left for a part is there for the parts that are read from their `data`. -/
theorem isSome_leftFor (hlength : contents.length = (attachmentsOf x parts).length) {i : Nat} :
    (leftFor x parts contents i).isSome = true ↔ i ∈ attachmentsOf x parts := by
  rw [leftFor]
  cases hindex : (attachmentsOf x parts).idxOf? i with
  | none => simp [List.idxOf?_eq_none_iff.mp hindex]
  | some k =>
    obtain ⟨hk, hat, -⟩ := List.idxOf?_eq_some_iff.mp hindex
    have hmem : i ∈ attachmentsOf x parts := hat ▸ List.getElem_mem hk
    rw [Option.bind_some, List.getElem?_eq_getElem (by omega)]
    exact ⟨fun _ => hmem, fun _ => rfl⟩

theorem leftFor_mem {i : Nat} {bytes : List UInt8} (h : leftFor x parts contents i = some bytes) :
    bytes ∈ contents := by
  obtain ⟨k, -, hk⟩ := Option.bind_eq_some_iff.mp h
  exact List.mem_of_getElem? hk

/-- What a part asks for, and what it should be given. -/
def request (x : Crates) (parts : List Attrs) (contents : List (List UInt8)) (i : Nat) :
    Option (List UInt8 × List UInt8) :=
  (parts[i]?.bind fun a => askedBytes x (part a)).bind fun asked =>
    (leftFor x parts contents i).map fun bytes => (asked, bytes)

def requests (x : Crates) (parts : List Attrs) (contents : List (List UInt8)) :
    List (Option (List UInt8 × List UInt8)) :=
  (List.range parts.length).map (request x parts contents)

theorem getElem?_requests {i : Nat} (hi : i < parts.length) :
    (requests x parts contents)[i]? = some (request x parts contents i) := by
  rw [requests, List.getElem?_map, List.getElem?_range hi, Option.map_some]

theorem request_fst (hlength : contents.length = (attachmentsOf x parts).length) {i : Nat}
    (ha : parts[i]? = some a) :
    (request x parts contents i).map Prod.fst = askedBytes x (part a) := by
  rw [request, ha, Option.bind_some]
  cases hasked : askedBytes x (part a) with
  | none => rfl
  | some asked =>
    obtain ⟨hwords, hbytes⟩ := content_bytes.mp hasked
    have hmem : i ∈ attachmentsOf x parts :=
      ((mem_attachmentsOf x parts).2 i).mpr ⟨a, ha, hwords, .inl ⟨asked, hbytes⟩⟩
    obtain ⟨bytes, hleft⟩ := Option.isSome_iff_exists.mp ((isSome_leftFor hlength).mpr hmem)
    rw [Option.bind_some, hleft]
    rfl

theorem requests_fst (hlength : contents.length = (attachmentsOf x parts).length) :
    (requests x parts contents).map (Option.map Prod.fst) =
      parts.map fun a => askedBytes x (part a) := by
  apply List.ext_getElem?
  intro i
  rw [List.getElem?_map, List.getElem?_map]
  by_cases hi : i < parts.length
  · have ha : parts[i]? = some parts[i] := List.getElem?_eq_getElem hi
    rw [getElem?_requests hi, ha, Option.map_some, Option.map_some, request_fst hlength ha]
  · rw [List.getElem?_eq_none (by simpa using hi : parts.length ≤ i), requests, List.getElem?_map,
      List.getElem?_eq_none (by simpa using hi)]
    rfl

theorem takenBefore_eq {i : Nat} (hi : i ≤ parts.length) :
    ((requests x parts contents).take i).reduceOption.map Prod.snd =
      takenBefore x parts contents i := by
  have htake : (List.range parts.length).take i = List.range i := by
    rw [List.take_range, Nat.min_eq_left hi]
  rw [requests, ← List.map_take, htake, List.reduceOption, List.filterMap_map, List.map_filterMap,
    takenBefore]
  congr 1
  funext j
  rw [Function.comp_apply, request]
  cases parts[j]?.bind fun a => askedBytes x (part a) with
  | none => rfl
  | some asked =>
    cases leftFor x parts contents j with
    | none => rfl
    | some bytes => rfl

/-- The parts with what they are served. -/
def refilled (x : Crates) (parts : List Attrs) (contents : List (List UInt8)) : List Attrs :=
  List.zipWith (refill x) parts
    (serve contents [] contents (parts.map fun a => askedBytes x (part a)))

theorem getElem?_refilled (contents : List (List UInt8)) {i : Nat} (ha : parts[i]? = some a) :
    ∃ given, (serve contents [] contents (parts.map fun a => askedBytes x (part a)))[i]? =
        some given ∧
      (refilled x parts contents)[i]? = some (refill x a given) ∧
      given.isSome = (askedBytes x (part a)).isSome := by
  have hi : i < parts.length := (List.getElem?_eq_some_iff.mp ha).1
  have hserve : i < (serve contents [] contents
      (parts.map fun a => askedBytes x (part a))).length := by
    rw [length_serve, List.length_map]
    exact hi
  have hgiven := List.getElem?_eq_getElem hserve
  have hask : (parts.map fun a => askedBytes x (part a))[i]? = some (askedBytes x (part a)) := by
    rw [List.getElem?_map, ha, Option.map_some]
  refine ⟨_, hgiven, ?_, isSome_serve hask hgiven⟩
  rw [refilled, List.getElem?_zipWith, ha, hgiven]

/-- Without data a part says what its `text` says. -/
theorem partWords_of_noData {given : Option (List UInt8)}
    (h : refill x a given "data" = none) :
    partWords x (refill x a given) = (bodyWords x (get a "text")).chars := by
  have htext : get (refill x a given) "text" = get a "text" := by
    rw [get, refill_other (by decide) (by decide) (by decide) (by decide), get]
  have hdata : decodePartData x (get (refill x a given) "data") = .absent := by
    rw [get, h]
    rfl
  rw [partWords, content, partContent.eq_def, hdata,
    show (part (refill x a given)).text = get (refill x a given) "text" from rfl, htext]
  generalize bodyWords x (get a "text") = words
  by_cases hwords : words.chars = []
  · simp [hwords]
  · simp [hwords]

theorem request_eq_some {i : Nat} {r : List UInt8 × List UInt8} :
    request x parts contents i = some r ↔ ∃ a, parts[i]? = some a ∧
      askedBytes x (part a) = some r.1 ∧ leftFor x parts contents i = some r.2 := by
  rw [request]
  constructor
  · intro h
    obtain ⟨asked, hasked, h⟩ := Option.bind_eq_some_iff.mp h
    obtain ⟨a, ha, hasked⟩ := Option.bind_eq_some_iff.mp hasked
    obtain ⟨bytes, hleft, rfl⟩ := Option.map_eq_some_iff.mp h
    exact ⟨a, ha, hasked, hleft⟩
  · rintro ⟨a, ha, hasked, hleft⟩
    rw [ha, Option.bind_some, hasked, Option.bind_some, hleft]
    rfl

/-- The parts are served what they should be given exactly when the rewritten attachments are the
first that are left for them. -/
theorem served_iff (hlength : contents.length = (attachmentsOf x parts).length) :
    serve contents [] contents (parts.map fun a => askedBytes x (part a)) =
        (requests x parts contents).map (Option.map Prod.snd) ↔
      ∀ {i : Nat} {a asked bytes}, parts[i]? = some a → askedBytes x (part a) = some asked →
        leftFor x parts contents i = some bytes →
        Right contents [] (contents.diff (takenBefore x parts contents i)) asked bytes := by
  have hwanted : ∀ r, some r ∈ requests x parts contents → r.2 ∈ contents := by
    intro r hr
    obtain ⟨i, -, hi⟩ := List.mem_map.mp hr
    obtain ⟨a, -, -, hleft⟩ := request_eq_some.mp hi
    exact leftFor_mem hleft
  rw [← requests_fst hlength, serve_eq_iff hwanted]
  constructor
  · intro h i a asked bytes ha hasked hleft
    have hi : i < parts.length := (List.getElem?_eq_some_iff.mp ha).1
    have hrequest : request x parts contents i = some (asked, bytes) :=
      request_eq_some.mpr ⟨a, ha, hasked, hleft⟩
    have := h i (asked, bytes) (by rw [getElem?_requests hi, hrequest])
    rwa [takenBefore_eq hi.le] at this
  · intro h i r hr
    have hi : i < parts.length := by
      have := (List.getElem?_eq_some_iff.mp hr).1
      rwa [requests, List.length_map, List.length_range] at this
    rw [getElem?_requests hi] at hr
    obtain ⟨a, ha, hasked, hleft⟩ := request_eq_some.mp (Option.some.inj hr)
    rw [takenBefore_eq hi.le]
    exact h ha hasked hleft

/-- A part that is read from its `data` bears the bytes that it is given. -/
theorem bears_iff {asked bytes : List UInt8} (hasked : askedBytes x (part a) = some asked)
    (hgiven : given.isSome = true) : Bears x a (refill x a given) bytes ↔ given = some bytes := by
  obtain ⟨served, rfl⟩ := Option.isSome_iff_exists.mp hgiven
  rw [Bears, (content_bytes.mp hasked).2]
  show refill x a (some served) "data" = _ ↔ _
  constructor
  · exact fun h => congrArg some (refill_data_inj h)
  · intro h
    rw [refill_data, Option.some.inj h, Option.bind_some]

/-- A part that is not read from its `data` bears what its `text` says. -/
theorem bears_text {bytes : List UInt8} {t : Str} (ht : content x a = .text t) :
    Bears x a (refill x a none) bytes ↔ bytes = encode t.chars := by
  have htext : get (refill x a none) "text" = get a "text" := by
    rw [get, refill_other (by decide) (by decide) (by decide) (by decide), get]
  rw [Bears, ht, (content_text ht).1]
  show refill x a none "data" = none ∧ bytes = _ ↔ _
  rw [refill_data, htext]
  exact and_iff_right rfl

theorem refilled_unasked (contents : List (List UInt8)) {i : Nat} (ha : parts[i]? = some a)
    (hasked : askedBytes x (part a) = none) :
    (refilled x parts contents)[i]? = some (refill x a none) := by
  obtain ⟨given, -, hrefilled, hsome⟩ := getElem?_refilled (x := x) contents ha
  rw [hasked, Option.isSome_none, Option.isSome_eq_false_iff, Option.isNone_iff_eq_none] at hsome
  rw [hrefilled, hsome]

theorem unasked_of_words (hwords : isWords (part a) = true) : askedBytes x (part a) = none := by
  rw [askedBytes, hwords, if_pos rfl]

/-- An attachment is read from its part's `data`, or from its `text`. -/
theorem data_or_text (hlength : contents.length = (attachmentsOf x parts).length) {i : Nat}
    {bytes : List UInt8} (ha : parts[i]? = some a)
    (hleft : leftFor x parts contents i = some bytes) :
    (∃ asked, askedBytes x (part a) = some asked) ∨
      ∃ t, content x a = .text t ∧ askedBytes x (part a) = none := by
  have hmem := (isSome_leftFor hlength).mp (Option.isSome_of_eq_some hleft)
  obtain ⟨a', ha', hwords, hcontent⟩ := ((mem_attachmentsOf x parts).2 i).mp hmem
  obtain rfl : a = a' := Option.some.inj (ha.symm.trans ha')
  obtain ⟨asked, hbytes⟩ | ⟨t, ht⟩ := hcontent
  · exact .inl ⟨asked, content_bytes.mpr ⟨hwords, hbytes⟩⟩
  · refine .inr ⟨t, ht, ?_⟩
    cases hasked : askedBytes x (part a) with
    | none => rfl
    | some asked =>
      have hbytes := (content_bytes.mp hasked).2
      rw [ht] at hbytes
      cases hbytes

/-- The words of a part that is not filled. -/
theorem words_iff :
    (refill x a none "text" = a "text" ∧
        (partWords x a ≠ [] → partWords x (refill x a none) = partWords x a)) ↔
      ∀ bytes, content x a = .bytes bytes → (x.lossy bytes).chars ≠ [] →
        (x.lossy bytes).chars = (bodyWords x (get a "text")).chars := by
  rw [partWords_of_noData refill_data, and_iff_right (refill_other (by decide) (by decide)
    (by decide) (by decide)), partWords]
  cases hcontent : content x a with
  | none => simp
  | unreadable => simp
  | text t => simp [(content_text hcontent).1]
  | bytes bytes =>
    constructor
    · intro h bytes' hbytes' hne
      obtain rfl : bytes = bytes' := by simpa using hbytes'
      exact (h hne).symm
    · exact fun h hne => (h bytes rfl hne).symm

/-- **Each part is written back right exactly when it can be.** -/
theorem writtenBack_iff (hlength : contents.length = (attachmentsOf x parts).length) :
    WrittenBack x parts contents (refilled x parts contents) ↔ Writable x parts contents := by
  constructor
  · intro h
    refine ⟨fun {a bytes} hmem hwords => ?_, fun {i a t bytes} ha ht hleft => ?_,
      (served_iff hlength).mp ?_⟩
    · obtain ⟨i, ha⟩ := List.getElem?_of_mem hmem
      have hb := refilled_unasked contents ha (unasked_of_words (x := x) hwords)
      exact words_iff.mp (h.words ha hb hwords) bytes
    · obtain ⟨asked, hasked⟩ | ⟨t', -, hasked⟩ := data_or_text hlength ha hleft
      · rw [(content_bytes.mp hasked).2] at ht
        cases ht
      · exact (bears_text ht).mp (h.bytes ha (refilled_unasked contents ha hasked) hleft)
    · -- The parts that ask are given what they should be, and the others nothing.
      apply List.ext_getElem?
      intro i
      by_cases hi : i < parts.length
      · have ha : parts[i]? = some parts[i] := List.getElem?_eq_getElem hi
        obtain ⟨given, hserve, hb, hsome⟩ := getElem?_refilled (x := x) contents ha
        rw [hserve, List.getElem?_map, getElem?_requests hi, Option.map_some]
        congr 1
        have hfst := request_fst hlength ha
        cases hrequest : request x parts contents i with
        | none =>
          rw [hrequest] at hfst
          rw [← hfst] at hsome
          simpa using hsome
        | some r =>
          obtain ⟨a, ha', hasked, hleft⟩ := request_eq_some.mp hrequest
          obtain rfl : parts[i] = a := Option.some.inj (ha.symm.trans ha')
          rw [hasked] at hsome
          exact (bears_iff hasked hsome).mp (h.bytes ha hb hleft)
      · rw [List.getElem?_eq_none, List.getElem?_eq_none]
        · rw [List.length_map, requests, List.length_map, List.length_range]
          omega
        · rw [length_serve, List.length_map]
          omega
  · intro h
    have hserved := (served_iff hlength).mpr h.rewritten
    have hrestored : ∀ {i : Nat} {b}, (refilled x parts contents)[i]? = some b →
        ∃ a, parts[i]? = some a := by
      intro i b hb
      have hi := (List.getElem?_eq_some_iff.mp hb).1
      rw [refilled, List.length_zipWith] at hi
      exact ⟨_, List.getElem?_eq_getElem (by omega)⟩
    refine ⟨?_, fun {i a b bytes} ha hb hleft => ?_, fun {i b} hb hnone => ?_,
      fun {i a b} ha hb hwords => ?_⟩
    · rw [refilled, List.length_zipWith, length_serve, List.length_map, Nat.min_self]
    · obtain ⟨asked, hasked⟩ | ⟨t, ht, hasked⟩ := data_or_text hlength ha hleft
      · obtain ⟨given, hserve, hb', hsome⟩ := getElem?_refilled (x := x) contents ha
        obtain rfl := Option.some.inj (hb.symm.trans hb')
        have hi : i < parts.length := (List.getElem?_eq_some_iff.mp ha).1
        have hrequest : request x parts contents i = some (asked, bytes) :=
          request_eq_some.mpr ⟨a, ha, hasked, hleft⟩
        rw [hserved, List.getElem?_map, getElem?_requests hi, Option.map_some, hrequest] at hserve
        rw [hasked] at hsome
        exact (bears_iff hasked hsome).mpr (Option.some.inj hserve).symm
      · obtain rfl := Option.some.inj (hb.symm.trans (refilled_unasked contents ha hasked))
        exact (bears_text ht).mpr (h.texts ha ht hleft)
    · obtain ⟨a, ha⟩ := hrestored hb
      cases hasked : askedBytes x (part a) with
      | none =>
        obtain rfl := Option.some.inj (hb.symm.trans (refilled_unasked contents ha hasked))
        exact refill_data
      | some asked =>
        obtain ⟨hwords, hbytes⟩ := content_bytes.mp hasked
        have hmem : i ∈ attachmentsOf x parts :=
          ((mem_attachmentsOf x parts).2 i).mpr ⟨a, ha, hwords, .inl ⟨asked, hbytes⟩⟩
        have hsome := (isSome_leftFor hlength).mpr hmem
        rw [hnone] at hsome
        cases hsome
    · obtain rfl := Option.some.inj
        (hb.symm.trans (refilled_unasked contents ha (unasked_of_words (x := x) hwords)))
      exact words_iff.mpr fun bytes =>
        h.words (List.mem_of_getElem? ha) hwords

theorem injectAttachmentData_eq (hforall : List.Forall₂ (Transformed x files) attachments contents)
    (hunmarked : ∀ a ∈ parts, Unmarked a) (hdistinct : Distinguished x contents parts) :
    injectAttachmentData x files (parts.map fun a => fields x (part a)) attachments =
      .ok (refilled x parts contents) := by
  have hstart : Tracks contents ⟨List.replicate attachments.length false, 0⟩ :=
    ⟨hforall.length_eq.symm.trans List.length_replicate.symm,
      fun j hj => absurd hj (Nat.not_lt_zero j)⟩
  rw [injectAttachmentData, injectFrom_spec hforall hunmarked hdistinct hstart, refilled,
    hforall.length_eq, leftOf_replicate]

/-- **An MMS is restored** with each part as its attachment was left exactly when the parts can be
    written back. The attachments of the message are read from the parts `attachmentsOf`, one
    each; a transform keeps them in length and order and leaves them with `contents`. -/
theorem restoreMms_iff (attrs : Attrs) (addrs synthesized : List Attrs) (msg : IrMessage)
    (hunmarked : ∀ a ∈ parts, Unmarked a)
    (htransformed : List.Forall₂ (Transformed x files) msg.attachments contents)
    (hlength : msg.attachments.length = (mmsBody x (parts.map part)).2.1.length)
    (hdistinct : Distinguished x contents parts) :
    (attachmentsOf x parts).Nodup ∧
    (mmsBody x (parts.map part)).2.1.map some =
      (attachmentsOf x parts).map (blobAt x (parts.map part)) ∧
    ∃ result, restoreMms x files attrs (parts.map fun a => fields x (part a)) addrs synthesized msg =
        .ok result ∧
      (result = none ↔ parts = [] ∧ addrs = []) ∧
      ∀ m, result = some m → (WrittenBack x parts contents m.parts ↔ Writable x parts contents) := by
  refine ⟨(mem_attachmentsOf x parts).1, mmsBody_blobs x parts, ?_⟩
  have hattachments : contents.length = (attachmentsOf x parts).length := by
    have := congrArg List.length (mmsBody_blobs x parts)
    rw [List.length_map, List.length_map] at this
    rw [← htransformed.length_eq, hlength, this]
  have hinject := injectAttachmentData_eq htransformed hunmarked hdistinct
  rw [restoreMms]
  split
  · next hempty =>
    rw [Bool.and_eq_true, List.isEmpty_iff, List.isEmpty_iff, List.map_eq_nil_iff] at hempty
    exact ⟨none, rfl, ⟨fun _ => hempty, fun _ => rfl⟩, fun m hm => by cases hm⟩
  · next hnonempty =>
    rw [Bool.and_eq_true, List.isEmpty_iff, List.isEmpty_iff, List.map_eq_nil_iff] at hnonempty
    rw [hinject]
    refine ⟨_, rfl, ⟨(fun h => by cases h), fun h => absurd h hnonempty⟩, fun m hm => ?_⟩
    obtain rfl := Option.some.inj hm
    exact writtenBack_iff hattachments

end

/-! Two pictures that the layout shows the other way round. -/

def hi : List UInt8 := [104, 105]
def yo : List UInt8 := [121, 111]
def hey : List UInt8 := [104, 101, 121]

/-- A string as one of another crate. -/
def asStr (s : String) : Str :=
  if h : size s.toList ≤ usizeMax / 2 then ⟨s.toList, h⟩ else ⟨[], nil_fits⟩

/-- Each byte as a character of its own, past the ones of base64. -/
def spelled (bytes : List UInt8) : String := String.ofList (bytes.map fun b => Char.ofNat (0x4E00 + b.toNat))

def unspelled (raw : String) : List UInt8 := raw.toList.map fun c => UInt8.ofNat (c.toNat - 0x4E00)

theorem unspelled_spelled (bytes : List UInt8) : unspelled (spelled bytes) = bytes := by
  have hbyte : ∀ b : UInt8, UInt8.ofNat ((Char.ofNat (0x4E00 + b.toNat)).toNat - 0x4E00) = b := by
    intro b
    have hvalid : (0x4E00 + b.toNat).isValidChar := .inl (by have := b.toNat_lt; omega)
    rw [Char.toNat_ofNat, if_pos hvalid, Nat.add_sub_cancel_left, UInt8.ofNat_toNat]
  rw [unspelled, spelled, String.toList_ofList, List.map_map]
  conv_rhs => rw [← List.map_id bytes]
  exact List.map_congr_left fun b _ => hbyte b

/-- A layout that shows `b.jpg` first. -/
def pictures : String := "<img src=\"b.jpg\"/><img src=\"a.jpg\"/>"

def sampleEncode (bytes : List UInt8) : String :=
  if bytes = hi then "aGk=" else if bytes = yo then "eW8=" else if bytes = hey then "aGV5"
  else spelled bytes

def sampleDecode (raw : String) : Option (List UInt8) :=
  if raw = "aGk=" then some hi else if raw = "eW8=" then some yo else if raw = "aGV5" then some hey
  else if raw.toList.all fun c => decide (0x4E00 ≤ c.toNat) then some (unspelled raw) else none

def sampleSha256 (bytes : List UInt8) : String :=
  if bytes = hi then "8f434346648f6b96df89dda901c5176b10a6d83961dd3c1ac88b59b2dc327aa4"
  else if bytes = yo then "e9058ab198f6908f702111b0c0fb5b36f99d00554521886c40e2891b349dc7a1"
  else if bytes = hey then "fa690b82061edfd2852629aeba8a8977b57e40fcb77d1a7a28b26cba62591204"
  else "0"

theorem all_spelled (bytes : List UInt8) :
    ((spelled bytes).toList.all fun c => decide (0x4E00 ≤ c.toNat)) = true := by
  rw [spelled, String.toList_ofList, List.all_map, List.all_eq_true]
  intro b _
  have hvalid : (0x4E00 + b.toNat).isValidChar := .inl (by have := b.toNat_lt; omega)
  rw [Function.comp_apply, Char.toNat_ofNat, if_pos hvalid, decide_eq_true_eq]
  omega

/-- The crates on the pictures. -/
def sample : Crates where
  html := asStr
  lossy bytes := asStr (String.ofList (bytes.map fun b => Char.ofNat b.toNat))
  captures document :=
    if document.chars = pictures.toList then ["b.jpg".toList, "a.jpg".toList] else []
  decode64 := sampleDecode
  encode64 := sampleEncode
  sha256Hex := sampleSha256
  captures_le document := by
    split
    · next h =>
      rw [h]
      decide +kernel
    · exact Nat.zero_le _
  decode64_encode64 bytes := by
    rw [sampleEncode]
    split
    · next h => rw [h]; rfl
    split
    · next h => rw [h]; rfl
    split
    · next h => rw [h]; rfl
    · have hne : ∀ raw : String, (raw.toList.all fun c => decide (0x4E00 ≤ c.toNat)) = false →
          spelled bytes ≠ raw := by
        intro raw hraw heq
        rw [← heq, all_spelled] at hraw
        cases hraw
      rw [sampleDecode, if_neg (hne _ (by decide)), if_neg (hne _ (by decide)),
        if_neg (hne _ (by decide)), all_spelled, if_pos rfl, unspelled_spelled]
  decode64_ne_nil {raw bytes} h hraw := by
    rw [sampleDecode] at h
    split at h
    · rw [← Option.some.inj h]; decide
    split at h
    · rw [← Option.some.inj h]; decide
    split at h
    · rw [← Option.some.inj h]; decide
    split at h
    · rw [← Option.some.inj h, unspelled]
      intro hnil
      rw [List.map_eq_nil_iff] at hnil
      exact hraw (String.toList_injective hnil)
    · cases h
  digest_not_blank bytes := by
    rw [sampleSha256]
    split
    · decide +kernel
    split
    · decide +kernel
    split
    · decide +kernel
    · decide +kernel

/-- Attributes from a list. -/
def attrsOf (attributes : List (String × String)) : Attrs := fun key => attributes.lookup key

def picturesParts : List Attrs :=
  [attrsOf [("ct", "image/jpeg"), ("name", "a.jpg"), ("data", "aGk=")],
    attrsOf [("ct", "image/jpeg"), ("name", "b.jpg"), ("data", "eW8=")],
    attrsOf [("ct", "application/smil"), ("text", pictures)]]

/-- The attachments once the transform has rewritten the second. -/
def picturesMessage : IrMessage where
  timestampUnixMs := 0
  outgoing := false
  attachments := [⟨none, some (sampleSha256 yo), some yo⟩, ⟨none, some (sampleSha256 hey), some hey⟩]

def noFiles (_ : String) : Except String (Option (List UInt8)) := .ok none

example : attachmentsOf sample picturesParts = [1, 0] := by decide +kernel

theorem picturesParts_unmarked : ∀ a ∈ picturesParts, Unmarked a := by
  intro a ha
  rcases List.mem_cons.mp ha with rfl | ha
  · exact ⟨rfl, rfl, rfl⟩
  rcases List.mem_cons.mp ha with rfl | ha
  · exact ⟨rfl, rfl, rfl⟩
  · rw [List.mem_singleton.mp ha]
    exact ⟨rfl, rfl, rfl⟩

theorem picturesMessage_transformed :
    List.Forall₂ (Transformed sample noFiles) picturesMessage.attachments [yo, hey] :=
  .cons ⟨rfl, .inl rfl⟩ (.cons ⟨rfl, .inl rfl⟩ .nil)

theorem pictures_distinguished {contents : List (List UInt8)}
    (hcontents : ∀ bytes ∈ contents, bytes ∈ [hi, yo, hey]) :
    Distinguished sample contents picturesParts := by
  have hasked : ∀ asked, asked = hi ∨ asked = yo → ∀ bytes ∈ [hi, yo, hey],
      sampleSha256 bytes = sampleSha256 asked → bytes = asked := by
    intro asked hasked
    rcases hasked with rfl | rfl
    · decide
    · decide
  intro a ha asked h bytes hbytes
  refine hasked asked ?_ bytes (hcontents bytes hbytes)
  rcases List.mem_cons.mp ha with rfl | ha
  · exact .inl (Option.some.inj (h.symm.trans rfl))
  rcases List.mem_cons.mp ha with rfl | ha
  · exact .inr (Option.some.inj (h.symm.trans rfl))
  · rw [List.mem_singleton.mp ha] at h
    cases h

/-- The first picture is rewritten and the second is not: both parts get the second. -/
theorem picture_on_both_parts :
    List.Forall₂ (Transformed sample noFiles) picturesMessage.attachments [yo, hey] ∧
    ∃ m, restoreMms sample noFiles (attrsOf []) (picturesParts.map fun a => fields sample (part a))
        [] [] picturesMessage = .ok (some m) ∧
      m.parts.map (· "data") = [some "eW8=", some "eW8=", none] ∧
      ¬ WrittenBack sample picturesParts [yo, hey] m.parts := by
  have hinject := injectAttachmentData_eq picturesMessage_transformed picturesParts_unmarked
    (pictures_distinguished (by decide))
  have hrestore : ∃ attrs, restoreMms sample noFiles (attrsOf [])
      (picturesParts.map fun a => fields sample (part a)) [] [] picturesMessage =
        .ok (some ⟨attrs, refilled sample picturesParts [yo, hey], []⟩) := by
    rw [restoreMms, hinject]
    exact ⟨_, rfl⟩
  obtain ⟨attrs, hrestore⟩ := hrestore
  have hdata : (refilled sample picturesParts [yo, hey]).map (· "data") =
      [some "eW8=", some "eW8=", none] := by decide +kernel
  refine ⟨picturesMessage_transformed, _, hrestore, hdata, fun h => ?_⟩
  have hlength : [yo, hey].length = (attachmentsOf sample picturesParts).length := by decide +kernel
  have hwritable := (writtenBack_iff hlength).mp h
  have hright : Right [yo, hey] [] [yo, hey] hi hey :=
    hwritable.rewritten (i := 0) rfl rfl (by decide +kernel)
  exact absurd (hright (by decide)).2 (by decide)

/-- The attachments once the transform has rewritten the picture that the layout shows first. -/
def rewrittenMessage : IrMessage where
  timestampUnixMs := 0
  outgoing := false
  attachments := [⟨none, some (sampleSha256 hey), some hey⟩, ⟨none, some (sampleSha256 hi), some hi⟩]

theorem pictures_writable : Writable sample picturesParts [hey, hi] where
  words := by
    intro a bytes ha hwords hcontent
    rcases List.mem_cons.mp ha with rfl | ha
    · cases hwords
    rcases List.mem_cons.mp ha with rfl | ha
    · cases hwords
    · rw [List.mem_singleton.mp ha] at hcontent
      cases hcontent
  texts := by
    intro i a t bytes ha hcontent hleft
    match i with
    | 0 =>
      cases Option.some.inj ha
      cases hcontent
    | 1 =>
      cases Option.some.inj ha
      cases hcontent
    | 2 =>
      have hnone : leftFor sample picturesParts [hey, hi] 2 = none := by decide +kernel
      rw [hnone] at hleft
      cases hleft
    | n + 3 => cases ha
  rewritten := by
    intro i a asked bytes ha hasked hleft
    match i with
    | 0 =>
      cases Option.some.inj ha
      have hhi : leftFor sample picturesParts [hey, hi] 0 = some hi := by decide +kernel
      rw [hhi] at hleft
      obtain rfl := Option.some.inj hleft
      obtain rfl : hi = asked := Option.some.inj hasked
      exact fun hne => absurd rfl hne
    | 1 =>
      cases Option.some.inj ha
      have hhey : leftFor sample picturesParts [hey, hi] 1 = some hey := by decide +kernel
      rw [hhey] at hleft
      obtain rfl := Option.some.inj hleft
      obtain rfl : yo = asked := Option.some.inj hasked
      exact fun _ => by decide +kernel
    | 2 =>
      cases Option.some.inj ha
      cases hasked
    | n + 3 => cases ha

theorem restoreMms_iff_pictures : ∃ m, restoreMms sample noFiles (attrsOf [])
    (picturesParts.map fun a => fields sample (part a)) [] [] rewrittenMessage = .ok (some m) ∧
      WrittenBack sample picturesParts [hey, hi] m.parts := by
  have htransformed :
      List.Forall₂ (Transformed sample noFiles) rewrittenMessage.attachments [hey, hi] :=
    .cons ⟨rfl, .inl rfl⟩ (.cons ⟨rfl, .inl rfl⟩ .nil)
  obtain ⟨-, -, result, hresult, hnone, h⟩ := restoreMms_iff (x := sample) (attrsOf []) [] []
    rewrittenMessage picturesParts_unmarked htransformed (by decide +kernel)
    (pictures_distinguished (by decide))
  cases result with
  | none => cases (hnone.mp rfl).1
  | some m => exact ⟨m, hresult, (h m rfl).mpr pictures_writable⟩

end MessageCrate.Sbr

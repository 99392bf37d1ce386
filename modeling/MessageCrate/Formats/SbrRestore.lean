import MessageCrate.Lib.Serving
import MessageCrate.Formats.SbrParts

/- An MMS written back from the attributes it was read from
   (exporters/sms-backup-restore-exporter/src/write.rs).

     `load_attachment_bytes`    ↔ `loadAttachmentBytes` (ir-format/src/util.rs)
     `inject_attachment_data`   ↔ `injectAttachmentData`, one part of its loop in `injectPart`,
                                  the attachment it takes in `pick`
     `restore_mms`              ↔ `restoreMms`

   `files` is `read_attachment_file`: the path checked, and the file read where there is one.
   The addresses that `restore_mms` makes up are its argument `synthesized`.

   1. `pick_spec`: the attachment that is taken is the one that `Serving.give` gives.
   2. `injectFrom_spec`: the parts are filled with what `Serving.serve` serves them. -/
namespace MessageCrate.Sbr
open MmsParts Utf8 Text Serving

/-- What the writer reads of an attachment. -/
structure IrAttachment where
  path : Option String
  digestSha256 : Option String
  bytes : Option (List UInt8)

def loadAttachmentBytes (files : String → Except String (Option (List UInt8)))
    (att : IrAttachment) : Except String (List UInt8) :=
  match att.bytes with
  | some bytes => .ok bytes
  | none =>
    match att.path with
    | none => .ok []
    | some rel => (files rel).map (·.getD [])

/-- The attachments that are taken, and where the fallback goes on. -/
structure Pairing where
  consumed : List Bool
  nextUnconsumed : Nat

def digestKey (att : IrAttachment) : Option String := att.digestSha256.filter (· ≠ "")

/-- The attachments with a digest. -/
def byDigest (attachments : List IrAttachment) (digest : String) : List Nat :=
  (List.range attachments.length).filter fun i => attachments[i]?.bind digestKey = some digest

def exactIndex (attachments : List IrAttachment) (consumed : List Bool) (digest : String) :
    Option Nat :=
  let indexes := byDigest attachments digest
  (indexes.find? fun i => !consumed.getD i false).or indexes.head?

/-- The first attachment from `next` on that is not taken. -/
def skipConsumed (consumed : List Bool) (next : Nat) : Nat :=
  next + ((consumed.drop next).takeWhile id).length

/-- The attachment for a digest: the first with it that is not taken, the first with it when all
are, and without any the next that is not taken. -/
def pick (attachments : List IrAttachment) (s : Pairing) (digest : String) :
    Option Nat × Pairing :=
  match exactIndex attachments s.consumed digest with
  | some i => (some i, { s with consumed := s.consumed.set i true })
  | none =>
    let next := skipConsumed s.consumed s.nextUnconsumed
    if next < attachments.length then (some next, ⟨s.consumed.set next true, next + 1⟩)
    else (none, { s with nextUnconsumed := next })

/-- The digest by which a part asks for an attachment. -/
def askedDigest (part : Attrs) : Option String :=
  let ct := (get part "ct").toList
  if isText ct || isSmil ct || decide (part "data_decode_error" = some "true") then none
  else (part "data_sha256").filter fun s => trim s ≠ ""

def withoutMarkers (part : Attrs) : Attrs :=
  ((part.remove "data_len").remove "data_sha256").remove "data_decode_error"

variable (x : Crates) (files : String → Except String (Option (List UInt8)))

/-- A part with the bytes of an attachment for its `data`. -/
def setData (part : Attrs) (bytes : List UInt8) : Attrs :=
  if bytes.isEmpty then part else part.insert "data" (x.encode64 bytes)

/-- One part. -/
def injectPart (attachments : List IrAttachment) (s : Pairing) (part : Attrs) :
    Except String (Attrs × Pairing) :=
  match askedDigest part with
  | none => .ok (withoutMarkers part, s)
  | some digest =>
    let picked := pick attachments s digest
    match picked.1.bind (attachments[·]?) with
    | none => .ok (withoutMarkers part, picked.2)
    | some att => do
      let bytes ← loadAttachmentBytes files att
      return (setData x (withoutMarkers part) bytes, picked.2)

def injectFrom (attachments : List IrAttachment) : Pairing → List Attrs → Except String (List Attrs)
  | _, [] => .ok []
  | s, part :: parts => do
    let r ← injectPart x files attachments s part
    let rest ← injectFrom attachments r.2 parts
    return r.1 :: rest

def injectAttachmentData (parts : List Attrs) (attachments : List IrAttachment) :
    Except String (List Attrs) :=
  injectFrom x files attachments ⟨List.replicate attachments.length false, 0⟩ parts

/-- What the writer reads of a message. -/
structure IrMessage where
  timestampUnixMs : Int
  outgoing : Bool
  attachments : List IrAttachment

structure SbrMms where
  attrs : Attrs
  parts : List Attrs
  addrs : List Attrs

def ensureAttr (attrs : Attrs) (key value : String) : Attrs :=
  if (attrs key).isSome then attrs else attrs.insert key value

def restoreMms (attrs : Attrs) (parts addrs synthesized : List Attrs) (msg : IrMessage) :
    Except String (Option SbrMms) :=
  if parts.isEmpty && addrs.isEmpty then .ok none
  else do
    let attrs := attrs.insert "date" (toString msg.timestampUnixMs)
    let attrs := attrs.insert "msg_box" (if msg.outgoing then "2" else "1")
    let parts ← injectAttachmentData x files parts msg.attachments
    let addrs := if addrs.isEmpty then synthesized else addrs
    return some ⟨ensureAttr attrs "read" "1", parts, addrs⟩

/-! What is given for a digest. -/

/-- A transform left the attachment with these bytes. Its digest is theirs; only an attachment
that is left without bytes may be left without one. -/
structure Transformed (att : IrAttachment) (bytes : List UInt8) : Prop where
  loads : loadAttachmentBytes files att = .ok bytes
  digest : att.digestSha256 = some (x.sha256Hex bytes) ∨ bytes = [] ∧ att.digestSha256 = none

variable {x files} {attachments : List IrAttachment} {contents : List (List UInt8)} {s : Pairing}
  {asked : List UInt8}

theorem trim_empty : trim "" = "" := rfl

theorem Crates.digest_ne (x : Crates) (bytes : List UInt8) : x.sha256Hex bytes ≠ "" :=
  fun h => x.digest_not_blank bytes (by rw [h, trim_empty])

/-- With digests that tell the contents apart, the attachments with a digest are the ones with its
content. -/
theorem digestKey_iff {att : IrAttachment} {bytes : List UInt8} (h : Transformed x files att bytes)
    (hasked : asked ≠ []) (hcollide : x.sha256Hex bytes = x.sha256Hex asked → bytes = asked) :
    digestKey att = some (x.sha256Hex asked) ↔ bytes = asked := by
  rw [digestKey]
  constructor
  · intro hkey
    rcases h.digest with hdigest | ⟨-, hnone⟩
    · rw [hdigest, Option.filter_some, if_pos (by simpa using x.digest_ne bytes)] at hkey
      exact hcollide (Option.some.inj hkey)
    · rw [hnone] at hkey
      cases hkey
  · intro hbytes
    rcases h.digest with hdigest | ⟨hnil, -⟩
    · rw [hdigest, Option.filter_some, if_pos (by simpa using x.digest_ne bytes), hbytes]
    · exact absurd (hbytes.symm.trans hnil) hasked

section pick
variable (hforall : List.Forall₂ (Transformed x files) attachments contents) (hasked : asked ≠ [])
  (hcollide : ∀ bytes ∈ contents, x.sha256Hex bytes = x.sha256Hex asked → bytes = asked)
include hforall hasked hcollide

theorem mem_byDigest {i : Nat} :
    i ∈ byDigest attachments (x.sha256Hex asked) ↔ contents[i]? = some asked := by
  have hlen := hforall.length_eq
  rw [byDigest, List.mem_filter, List.mem_range, decide_eq_true_eq]
  by_cases hi : i < attachments.length
  · have hi' : i < contents.length := hlen ▸ hi
    have hatt := hforall.get hi hi'
    rw [List.get_eq_getElem, List.get_eq_getElem] at hatt
    rw [List.getElem?_eq_getElem hi, List.getElem?_eq_getElem hi', Option.bind_some,
      digestKey_iff hatt hasked (hcollide _ (List.getElem_mem hi'))]
    simp only [hi, true_and, Option.some.injEq]
  · rw [List.getElem?_eq_none (by omega : contents.length ≤ i)]
    simp [hi]

end pick

/-- The fallback has passed attachments that are taken only. -/
structure Tracks (contents : List (List UInt8)) (s : Pairing) : Prop where
  length : contents.length = s.consumed.length
  skipped : ∀ j < s.nextUnconsumed, s.consumed[j]? = some true

/-- Where the fallback stops. -/
theorem skipConsumed_spec {consumed : List Bool} {next : Nat} (hnext : next ≤ consumed.length)
    (hskipped : ∀ j < next, consumed[j]? = some true) :
    skipConsumed consumed next ≤ consumed.length ∧
      (∀ j < skipConsumed consumed next, consumed[j]? = some true) ∧
      (skipConsumed consumed next < consumed.length →
        consumed[skipConsumed consumed next]? = some false) := by
  rw [skipConsumed]
  generalize hrun : (consumed.drop next).takeWhile id = run
  have hsplit : run ++ (consumed.drop next).dropWhile id = consumed.drop next := by
    rw [← hrun]
    exact List.takeWhile_append_dropWhile
  have hlen : run.length + ((consumed.drop next).dropWhile id).length = consumed.length - next := by
    rw [← List.length_append, hsplit, List.length_drop]
  have hat : ∀ j, consumed[next + j]? = (run ++ (consumed.drop next).dropWhile id)[j]? := by
    intro j
    rw [hsplit, List.getElem?_drop]
  refine ⟨by omega, fun j hj => ?_, fun hlt => ?_⟩
  · by_cases hjn : j < next
    · exact hskipped j hjn
    · have hrunj : j - next < run.length := by omega
      have hmem : run[j - next] ∈ run := List.getElem_mem hrunj
      have htrue : run[j - next] = true := by
        generalize run[j - next] = b at hmem ⊢
        rw [← hrun] at hmem
        exact List.mem_takeWhile_imp hmem
      have := hat (j - next)
      rw [List.getElem?_append_left hrunj, List.getElem?_eq_getElem hrunj, htrue] at this
      rwa [show next + (j - next) = j by omega] at this
  · have hhead := List.head?_dropWhile_not id (consumed.drop next)
    rw [hat, List.getElem?_append_right le_rfl, Nat.sub_self, ← List.head?_eq_getElem?]
    cases hrest : (consumed.drop next).dropWhile id with
    | nil =>
      rw [hrest] at hlen
      simp only [List.length_nil] at hlen
      omega
    | cons u rest =>
      rw [hrest] at hhead
      cases u with
      | false => rfl
      | true => cases hhead

theorem Tracks.set {i : Nat} (h : Tracks contents s) :
    Tracks contents { s with consumed := s.consumed.set i true } where
  length := h.length.trans List.length_set.symm
  skipped j hj := by
    show (s.consumed.set i true)[j]? = some true
    have htrue := h.skipped j hj
    rw [List.getElem?_set]
    split
    · next heq =>
      rw [if_pos (heq ▸ (List.getElem?_eq_some_iff.mp htrue).1)]
    · exact htrue

/-- **An attachment is taken as an item is given**: one with the content that is asked for where
    the message has any, and the next that is left where it has none. -/
theorem pick_spec (hforall : List.Forall₂ (Transformed x files) attachments contents)
    (hasked : asked ≠ [])
    (hcollide : ∀ bytes ∈ contents, x.sha256Hex bytes = x.sha256Hex asked → bytes = asked)
    (h : Tracks contents s) :
    Tracks contents (pick attachments s (x.sha256Hex asked)).2 ∧
      give contents [] (leftOf contents s.consumed) asked =
        (((pick attachments s (x.sha256Hex asked)).1.bind (contents[·]?)).getD [],
          leftOf contents (pick attachments s (x.sha256Hex asked)).2.consumed) := by
  have hmem := fun i => mem_byDigest (i := i) hforall hasked hcollide
  have hused : ∀ i, contents[i]? = some asked → i < s.consumed.length := fun i hi =>
    h.length ▸ (List.getElem?_eq_some_iff.mp hi).1
  have hgetD : ∀ i, i < s.consumed.length → ∀ b, s.consumed.getD i false = b →
      s.consumed[i]? = some b := by
    intro i hi b hb
    rw [List.getD_eq_getElem _ _ hi] at hb
    rw [List.getElem?_eq_getElem hi, hb]
  rw [pick]
  cases hexact : exactIndex attachments s.consumed (x.sha256Hex asked) with
  | some i =>
    -- An attachment with the digest: a free one if there is any, the first one if not.
    have hi : contents[i]? = some asked ∧ leftOf contents (s.consumed.set i true) =
        (leftOf contents s.consumed).erase asked := by
      rw [exactIndex] at hexact
      cases hfind : (byDigest attachments (x.sha256Hex asked)).find?
          (fun i => !s.consumed.getD i false) with
      | some j =>
        rw [hfind, Option.some_or] at hexact
        obtain rfl : j = i := Option.some.inj hexact
        have hj := (hmem j).mp (List.mem_of_find?_eq_some hfind)
        refine ⟨hj, left_take h.length hj ?_ fun k hk hkasked => ?_⟩
        · have := List.find?_some hfind
          exact hgetD j (hused j hj) false (by simpa using this)
        · have hfree := hfind
          rw [byDigest, List.find?_filter, List.find?_range_eq_some] at hfree
          have hk' := hfree.2.2 k hk
          have hkmem := List.mem_filter.mp ((hmem k).mpr hkasked)
          refine hgetD k (hused k hkasked) true ?_
          simp only [hkmem.2] at hk'
          simpa using hk'
      | none =>
        rw [hfind, Option.none_or] at hexact
        have hmemi := List.mem_of_mem_head? hexact
        have hall := List.find?_eq_none.mp hfind
        have htrue : ∀ k, contents[k]? = some asked → s.consumed[k]? = some true := fun k hk =>
          hgetD k (hused k hk) true (by simpa using hall k ((hmem k).mpr hk))
        have hi := (hmem i).mp hmemi
        refine ⟨hi, ?_⟩
        rw [left_again (htrue i hi), List.erase_of_not_mem]
        intro hleft
        obtain ⟨k, hk, hfalse⟩ := mem_leftOf h.length hleft
        rw [htrue k hk] at hfalse
        cases hfalse
    refine ⟨h.set, ?_⟩
    rw [give, if_pos (List.mem_of_getElem? hi.1), ← hi.2]
    show _ = ((contents[i]?).getD [], _)
    rw [hi.1, Option.getD_some]
  | none =>
    have hnot : asked ∉ contents := by
      intro hin
      obtain ⟨i, hi⟩ := List.getElem?_of_mem hin
      have hne := List.ne_nil_of_mem ((hmem i).mpr hi)
      rw [exactIndex, Option.or_eq_none_iff, List.head?_eq_none_iff] at hexact
      exact hne hexact.2
    have hnext : s.nextUnconsumed ≤ s.consumed.length := by
      by_contra hlt
      have := h.skipped s.consumed.length (by omega)
      rw [List.getElem?_eq_none le_rfl] at this
      cases this
    obtain ⟨hle, hskipped, hfree⟩ := skipConsumed_spec hnext h.skipped
    have hlen : attachments.length = s.consumed.length := hforall.length_eq.trans h.length
    rw [give, if_neg hnot]
    simp only [hlen]
    split
    · next hlt =>
      generalize skipConsumed s.consumed s.nextUnconsumed = next at hle hskipped hfree hlt ⊢
      have hin : next < contents.length := h.length ▸ hlt
      have hat : contents[next]? = some contents[next] := List.getElem?_eq_getElem hin
      have hhead := leftOf_head h.length hat (hfree hlt) hskipped
      refine ⟨⟨h.length.trans List.length_set.symm, fun j hj => ?_⟩, ?_⟩
      · show (s.consumed.set next true)[j]? = some true
        rw [List.getElem?_set]
        split
        · rfl
        · next hne =>
          have hj : j < next + 1 := hj
          exact hskipped j (by omega)
      · have htake := left_take h.length hat (hfree hlt) fun j hj _ => hskipped j hj
        show _ = ((contents[next]?).getD [], leftOf contents (s.consumed.set next true))
        rw [htake, hat, Option.getD_some]
        cases hleft : leftOf contents s.consumed with
        | nil =>
          rw [hleft] at hhead
          cases hhead
        | cons a left =>
          rw [hleft] at hhead
          obtain rfl : a = contents[next] := Option.some.inj hhead
          rw [List.erase_cons_head]
          rfl
    · next hge =>
      have hall : skipConsumed s.consumed s.nextUnconsumed = s.consumed.length := by omega
      refine ⟨⟨h.length, hskipped⟩, ?_⟩
      rw [leftOf_nil h.length fun j hj => hskipped j (hall ▸ hj)]
      rfl

end MessageCrate.Sbr

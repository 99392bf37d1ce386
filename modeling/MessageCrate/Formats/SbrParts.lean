import MessageCrate.Formats.PartsKept

/- The parts of an SMS Backup & Restore MMS as the reader takes them (sbr/src/read.rs).

     `get`, `part`             ↔ `get`, `part`
     `decode_part_data`        ↔ `decodePartData`
     `part_content`            ↔ `partContent`
     `mms_body`                ↔ `mmsBody`, the blob of one attachment in `blobAt`
     `part_fields`             ↔ `partFields`

   An attribute map is the function that looks a key up. What other crates do is `Crates`, with
   what the reader relies on as its fields: base64 that reads back what it wrote and reads
   nothing out of an empty text only, and a digest that is never blank. -/
namespace MessageCrate.Sbr
open MmsParts Utf8 Text

/-- A map from attribute names to values. -/
abbrev Attrs := String → Option String

namespace Attrs

def insert (attrs : Attrs) (key value : String) : Attrs := Function.update attrs key (some value)

def remove (attrs : Attrs) (key : String) : Attrs := Function.update attrs key none

variable {attrs : Attrs} {key key' value : String}

@[simp]
theorem insert_self : attrs.insert key value key = some value := Function.update_self ..

theorem insert_of_ne (h : key' ≠ key) : attrs.insert key value key' = attrs key' :=
  Function.update_of_ne h ..

@[simp]
theorem remove_self : attrs.remove key key = none := Function.update_self ..

theorem remove_of_ne (h : key' ≠ key) : attrs.remove key key' = attrs key' :=
  Function.update_of_ne h ..

end Attrs

/-- The value of an attribute, or an empty string. -/
def get (attrs : Attrs) (key : String) : String := (attrs key).getD ""

structure MmsPart where
  ct : String
  name : String
  cl : String
  filenameAttr : String
  cid : String
  text : String
  data : String
  attrs : Attrs

def part (attrs : Attrs) : MmsPart where
  ct := get attrs "ct"
  name := get attrs "name"
  cl := get attrs "cl"
  filenameAttr := get attrs "fn"
  cid := get attrs "cid"
  text := get attrs "text"
  data := get attrs "data"
  attrs := attrs

/-- What other crates do. -/
structure Crates where
  /-- `html_escape::decode_html_entities`. -/
  html : String → Str
  /-- `String::from_utf8_lossy`. -/
  lossy : List UInt8 → Str
  /-- The pattern `SMIL_SRC` run over a document. -/
  captures : Str → List (List Char)
  /-- The `STANDARD` engine of `base64`. -/
  decode64 : String → Option (List UInt8)
  encode64 : List UInt8 → String
  /-- `hex::encode` of `Sha256::digest`. -/
  sha256Hex : List UInt8 → String
  captures_le : ∀ document, (captures document).length ≤ document.chars.length
  decode64_encode64 : ∀ bytes, decode64 (encode64 bytes) = some bytes
  decode64_ne_nil : ∀ {raw bytes}, decode64 raw = some bytes → raw ≠ "" → bytes ≠ []
  digest_not_blank : ∀ bytes, trim (sha256Hex bytes) ≠ ""

variable (x : Crates)

inductive DecodedPartData
  | absent
  | ok (bytes : List UInt8) (digestHex : String)
  | err (rawLen : Nat) (rawSha256 : String)

/-- A part's `data` decoded from base64, or why it could not be. -/
def decodePartData (raw : String) : DecodedPartData :=
  let trimmed := trim raw
  if trimmed = "" || eqIgnoreAsciiCase trimmed.toList "null".toList then .absent
  else
    match x.decode64 trimmed with
    | some bytes => .ok bytes (x.sha256Hex bytes)
    | none => .err raw.utf8ByteSize (x.sha256Hex (encode raw.toList))

/-- `\r\n` and `\r` as `\n`. -/
def normalizeLines : List Char → List Char
  | '\r' :: '\n' :: rest => '\n' :: normalizeLines rest
  | '\r' :: rest => '\n' :: normalizeLines rest
  | c :: rest => c :: normalizeLines rest
  | [] => []

theorem size_normalizeLines (cs : List Char) : size (normalizeLines cs) ≤ size cs := by
  induction cs using normalizeLines.induct with
  | case1 rest ih =>
    rw [normalizeLines, size_cons, size_cons, size_cons]
    omega
  | case2 rest hrest ih =>
    rw [normalizeLines, size_cons, size_cons]
    · have h : '\n'.utf8Size = '\r'.utf8Size := by decide
      omega
    · exact hrest
  | case3 c rest hcrlf hcr ih =>
    rw [normalizeLines, size_cons, size_cons]
    · omega
    · exact hcrlf
    · exact hcr
  | case4 => exact le_rfl

/-- A body with HTML entities decoded and line endings normalized. -/
def decodeBody (raw : String) : Str :=
  ⟨normalizeLines (x.html raw).chars, (size_normalizeLines _).trans (x.html raw).fits⟩

/-- The words of a part's `text`: `null` is none. -/
def bodyWords (raw : String) : Str :=
  let text := decodeBody x raw
  if eqIgnoreAsciiCase text.chars "null".toList then ⟨[], nil_fits⟩ else text

/-- What a part holds. -/
def partContent (p : MmsPart) (decoded : DecodedPartData) : Content :=
  let text := bodyWords x p.text
  if isText p.ct.toList && !text.chars.isEmpty then .text text
  else
    match decoded with
    | .ok bytes _ =>
      if !bytes.isEmpty then .bytes bytes
      else if text.chars.isEmpty then .none else .text text
    | .err _ _ => .unreadable
    | .absent => if text.chars.isEmpty then .none else .text text

/-- The part as `mms_parts` has it. -/
def shapedPart (p : MmsPart) : Part where
  contentType := p.ct.toList
  keys := [p.name.toList, p.cl.toList, p.cid.toList, p.filenameAttr.toList]
  content := partContent x p (decodePartData x p.data)

structure AttachmentBlob where
  mimeType : String
  data : List UInt8
  digestHex : String

/-- The bytes of an attachment and their digest. -/
def blobBytes (content : Content) (decoded : DecodedPartData) : Option (List UInt8 × String) :=
  match content, decoded with
  | .bytes _, .ok bytes digestHex => some (bytes, digestHex)
  | .text text, _ => some (encode text.chars, x.sha256Hex (encode text.chars))
  | _, _ => none

/-- The attachment that a part is. -/
def blobAt (parts : List MmsPart) (index : Nat) : Option AttachmentBlob :=
  parts[index]?.bind fun p =>
    (blobBytes x (shapedPart x p).content (decodePartData x p.data)).map fun blob =>
      ⟨if trim p.ct = "" then "application/octet-stream" else p.ct, blob.1, blob.2⟩

/-- The text, the attachments, and how many parts could not be read. -/
def mmsBody (parts : List MmsPart) : List Char × List AttachmentBlob × Nat :=
  let body := bodyOf x.captures x.lossy (parts.map (shapedPart x))
  (body.text, body.attachments.filterMap (blobAt x parts), body.unreadable.length)

/-- A part's attributes with the base64 replaced by a marker. -/
def partFields (p : MmsPart) (decoded : DecodedPartData) : Attrs :=
  let attrs := p.attrs.remove "data"
  match p.attrs "data" with
  | none => attrs
  | some d =>
    if trim d ≠ "" && !eqIgnoreAsciiCase d.toList "null".toList then
      match decoded with
      | .ok bytes digestHex =>
        (attrs.insert "data_len" (toString bytes.length)).insert "data_sha256" digestHex
      | .err rawLen rawSha256 =>
        ((attrs.insert "data_len" (toString rawLen)).insert "data_sha256" rawSha256).insert
          "data_decode_error" "true"
      | .absent => attrs
    else attrs

end MessageCrate.Sbr

import MessageCrate.Lib.Lines
import MessageCrate.Lib.Utf8

/- The parts of an MMS as its text and its attachments (mms-parts/src/lib.rs).

   The parts are ranked by the SMIL document that lays them out, sorted by rank, and read one
   after another.

     `media_type`, `is_text`, `is_smil` ↔ `mediaType`, `isText`, `isSmil`
     `part_names`, `src_key`            ↔ `partNames`, `srcKey`
     `smil_rank`                        ↔ `smilRank`, one `src` of its loop in `nameNext`
     `body_of`                          ↔ `bodyOf`, one part of its loop in `takePart`

   `captures` is the pattern `SMIL_SRC` run over a document (the `regex` crate's), and `decode` is
   `String::from_utf8_lossy`. -/
namespace MessageCrate.MmsParts

open Utf8

def usizeMax : Nat := 2 ^ 64 - 1

/-- A `String`: it takes `isize::MAX` bytes or fewer. -/
structure Str where
  chars : List Char
  fits : size chars ≤ usizeMax / 2

theorem nil_fits : size [] ≤ usizeMax / 2 := Nat.zero_le _

/-- What a reader could read from one part. -/
inductive Content
  | none
  | text (t : Str)
  | bytes (bs : List UInt8)
  | unreadable

structure Part where
  contentType : List Char
  keys : List (List Char)
  content : Content

structure Body where
  text : List Char
  attachments : List Nat
  unreadable : List Nat
  deriving DecidableEq

def mediaType (contentType : List Char) : List Char :=
  (Text.trimChars (contentType.takeWhile (· != ';'))).map Char.toLower

def isText (contentType : List Char) : Bool := mediaType contentType == "text/plain".toList

def isSmil (contentType : List Char) : Bool := mediaType contentType == "application/smil".toList

/-! What a SMIL document names a part by. -/

def eqIgnoreAsciiCase (s t : List Char) : Bool := s.map Char.toLower == t.map Char.toLower

/-- The value of a `src` less a `cid:` prefix. -/
def srcKey (src : List Char) : List Char :=
  let src := Text.trimChars src
  match takeBytes 4 src, dropBytes 4 src with
  | some start, some rest => if eqIgnoreAsciiCase start "cid:".toList then rest else src
  | _, _ => src

/-- A key less the angle brackets that a Content-ID is written with. -/
def unbracketed (key : List Char) : List Char :=
  match key with
  | '<' :: inner => if inner.getLast? = some '>' then inner.dropLast else key
  | _ => key

/-- The names that one key gives. -/
def keyNames (key : List Char) : List (List Char) :=
  let key := Text.trimChars (unbracketed (Text.trimChars key))
  if key.isEmpty || eqIgnoreAsciiCase key "null".toList || eqIgnoreAsciiCase key "none".toList then []
  else
    let base := key.rtakeWhile (· != '/')
    if !base.isEmpty && base != key then [key, base] else [key]

def partNames (part : Part) : List (List Char) := part.keys.flatMap keyNames

/-! The ranks. -/

/-- The parts that have a name by now, and the rank of each part. -/
structure Ranking where
  named : List Bool
  rank : List Nat

/-- The loop's turn for one `src`: it names the first part it may. -/
def nameNext (parts : List Part) (r : Ranking) (mention : List Char × Nat) : Ranking :=
  let found := (List.range parts.length).find? fun i =>
    !r.named.getD i false &&
      (parts[i]?.any fun part => !isSmil part.contentType && (partNames part).contains mention.1)
  match found with
  | some i => ⟨r.named.set i true, r.rank.set i mention.2⟩
  | none => r

/-- The document of the first SMIL part. -/
def smilDocument (decode : List UInt8 → Str) (parts : List Part) : Option Str :=
  match (parts.find? fun part => isSmil part.contentType).map Part.content with
  | some (.text t) => some t
  | some (.bytes bs) => some (decode bs)
  | _ => none

/-- The keys that the document names parts by, in order. -/
def mentions (captures : Str → List (List Char)) (decode : List UInt8 → Str) (parts : List Part) :
    List (List Char) :=
  match smilDocument decode parts with
  | some document => (captures document).map srcKey
  | none => []

def unranked (parts : List Part) : Ranking :=
  ⟨List.replicate parts.length false, (List.range parts.length).map (usizeMax / 2 + ·)⟩

/-- Where each part falls: at the position of the `src` that names it, and past every position
where none does. -/
def smilRank (captures : Str → List (List Char)) (decode : List UInt8 → Str) (parts : List Part) :
    List Nat :=
  ((mentions captures decode parts).zipIdx.foldl (nameNext parts) (unranked parts)).rank

/-! The body. -/

/-- What is collected so far. -/
structure Taken where
  texts : List (List Char)
  attachments : List Nat
  unreadable : List Nat

def takePart (decode : List UInt8 → Str) (parts : List Part) (s : Taken) (index : Nat) : Taken :=
  match parts[index]? with
  | none => s
  | some part =>
    if isSmil part.contentType then s
    else if isText part.contentType then
      match part.content with
      | .text t => if t.chars.isEmpty then s else { s with texts := s.texts ++ [t.chars] }
      | .bytes bs =>
        let t := decode bs
        if t.chars.isEmpty then s else { s with texts := s.texts ++ [t.chars] }
      | .unreadable => { s with unreadable := s.unreadable ++ [index] }
      | .none => s
    else
      match part.content with
      | .text t => if t.chars.isEmpty then s else { s with attachments := s.attachments ++ [index] }
      | .bytes _ => { s with attachments := s.attachments ++ [index] }
      | .unreadable => { s with unreadable := s.unreadable ++ [index] }
      | .none => s

def bodyOf (captures : Str → List (List Char)) (decode : List UInt8 → Str) (parts : List Part) :
    Body :=
  let rank := smilRank captures decode parts
  let order := (List.range parts.length).insertionSort (fun i j => rank.getD i 0 ≤ rank.getD j 0)
  let taken := order.foldl (takePart decode parts) ⟨[], [], []⟩
  ⟨Lines.joinLines taken.texts, taken.attachments, taken.unreadable.insertionSort (· ≤ ·)⟩

/-! What it should be. -/

/-- What becomes of a part. -/
inductive Class
  | smil
  | unreadable
  | attachment
  | text (t : List Char)
  | empty
  deriving DecidableEq

def classOf (decode : List UInt8 → Str) (part : Part) : Class :=
  if isSmil part.contentType then .smil
  else if isText part.contentType then
    match part.content with
    | .none => .empty
    | .text t => if t.chars = [] then .empty else .text t.chars
    | .bytes bs => if (decode bs).chars = [] then .empty else .text (decode bs).chars
    | .unreadable => .unreadable
  else
    match part.content with
    | .none => .empty
    | .text t => if t.chars = [] then .empty else .attachment
    | .bytes _ => .attachment
    | .unreadable => .unreadable

def Class.isAttachment : Class → Bool
  | .attachment => true
  | _ => false

def Class.isUnreadable : Class → Bool
  | .unreadable => true
  | _ => false

def Class.words : Class → Option (List Char)
  | .text t => some t
  | _ => none

/-- The class of the part at an index. -/
def classAt (decode : List UInt8 → Str) (parts : List Part) (i : Nat) : Class :=
  (parts[i]?.map (classOf decode)).getD .empty

/-- A `src` may name the part. -/
def Fits (part : Part) (src : List Char) : Prop :=
  isSmil part.contentType = false ∧ src ∈ partNames part

/-- Which `src` names which part: one that fits it, and no other part. A `src` that fits a part
and comes before the part's own, or fits one that has none, names a part written before it. -/
structure Naming (parts : List Part) (srcs : List (List Char)) (pos : Nat → Option Nat) : Prop where
  goes : ∀ {i p}, pos i = some p →
    ∃ part src, parts[i]? = some part ∧ srcs[p]? = some src ∧ Fits part src
  once : ∀ {i j p}, pos i = some p → pos j = some p → i = j
  first : ∀ {i p part src}, parts[i]? = some part → srcs[p]? = some src → Fits part src →
    (∀ q, pos i = some q → p < q) → ∃ j, j < i ∧ pos j = some p

/-- The order of the parts: the named ones as they are named, then the others as written. -/
def Before (pos : Nat → Option Nat) (i j : Nat) : Prop :=
  match pos i, pos j with
  | some p, some q => p < q
  | some _, none => True
  | none, some _ => False
  | none, none => i < j

end MessageCrate.MmsParts

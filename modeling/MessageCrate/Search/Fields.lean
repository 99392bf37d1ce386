import MessageCrate.Lib.Text

/- The registry of search words (`crates/server/server/src/search/fields.rs`).

   Every word the language has, once, with the shape of its value, the lists it works on,
   its keyword values and the example its error message quotes. The parser reads this
   table, so a field term's word is always one of the twenty-seven.

   Correspondence (Rust ↔ Lean):
     `FIELDS`                  ↔ `fields`
     `edit_distance`'s rows    ↔ `editRow`, one row for each character of the first word
     `min_by_key`              ↔ `List.minOn?`, the first of the least -/
namespace MessageCrate

/-- Which list a query is compiled for. -/
inductive ListKind where
  | contacts
  | conversations
  | messages
  deriving DecidableEq, Repr

/-- The list's name as a person reads it in an error message. -/
def ListKind.label : ListKind → String
  | .contacts => "Contacts"
  | .conversations => "Conversations"
  | .messages => "Messages"

/-- What shape of value a word takes. -/
inductive ValueType where
  | text
  | name
  | person
  | choice
  | date
  | count
  | size
  | flag
  deriving DecidableEq, Repr

/-- One word of the language. -/
structure FieldSpec where
  word : String
  valueType : ValueType
  lists : List ListKind
  /-- Keyword values, or the fixed choices of a choice or a flag. -/
  values : List String
  /-- One example, ready to type. -/
  example' : String
  deriving DecidableEq

def noneAny : List String := ["none", "any"]

/-- The twenty-seven words, in the spec's order. -/
def fields : List FieldSpec :=
  [ { word := "body", valueType := .text, lists := [.conversations, .messages],
      values := noneAny, example' := "body:avocado" },
    { word := "subject", valueType := .text, lists := [.conversations, .messages],
      values := noneAny, example' := "subject:dinner" },
    { word := "name", valueType := .text, lists := [.contacts, .conversations, .messages],
      values := noneAny, example' := "name:jane" },
    { word := "title", valueType := .text, lists := [.conversations, .messages],
      values := noneAny, example' := "title:\"book club\"" },
    { word := "identity", valueType := .text, lists := [.contacts, .conversations, .messages],
      values := noneAny, example' := "identity:@gmail.com" },
    { word := "with", valueType := .person, lists := [.conversations, .messages],
      values := [], example' := "with:jane" },
    { word := "from", valueType := .person, lists := [.messages],
      values := ["me"], example' := "from:me" },
    { word := "to", valueType := .person, lists := [.messages],
      values := ["me"], example' := "to:jane" },
    { word := "in", valueType := .name, lists := [.messages], values := [], example' := "in:#19" },
    { word := "group", valueType := .name, lists := [.contacts, .conversations, .messages],
      values := ["none", "unknown"], example' := "group:Family" },
    { word := "tag", valueType := .name, lists := [.contacts, .conversations, .messages],
      values := ["none"], example' := "tag:Holiday" },
    { word := "kind", valueType := .choice, lists := [.contacts, .conversations, .messages],
      values := ["direct", "group"], example' := "kind:direct" },
    { word := "service", valueType := .choice, lists := [.contacts, .conversations, .messages],
      values := ["imessage", "sms", "mms", "rcs", "whatsapp"], example' := "service:imessage" },
    { word := "source", valueType := .choice, lists := [.conversations, .messages],
      values := ["imessage", "whatsapp", "sms-backup-restore", "imazing", "openextract",
        "go-sms-pro", "sms-backup-plus"],
      example' := "source:whatsapp" },
    { word := "import", valueType := .name, lists := [.conversations, .messages],
      values := ["last"], example' := "import:last" },
    { word := "date", valueType := .date, lists := [.contacts, .conversations, .messages],
      values := [], example' := "date:2019..2021" },
    { word := "first-message", valueType := .date, lists := [.contacts, .conversations, .messages],
      values := [], example' := "first-message:<2020" },
    { word := "last-message", valueType := .date, lists := [.contacts, .conversations, .messages],
      values := [], example' := "last-message:<2022" },
    { word := "attachment", valueType := .choice, lists := [.conversations, .messages],
      values := ["image", "video", "audio", "document", "pdf", "contact", "other", "any", "none"],
      example' := "attachment:image" },
    { word := "filename", valueType := .text, lists := [.conversations, .messages],
      values := [], example' := "filename:IMG_*" },
    { word := "size", valueType := .size, lists := [.conversations, .messages],
      values := [], example' := "size:>1M" },
    { word := "messages", valueType := .count, lists := [.contacts, .conversations],
      values := [], example' := "messages:>100" },
    { word := "conversations", valueType := .count, lists := [.contacts],
      values := [], example' := "conversations:0" },
    { word := "groups", valueType := .count, lists := [.contacts],
      values := [], example' := "groups:>5" },
    { word := "participants", valueType := .count, lists := [.conversations, .messages],
      values := [], example' := "participants:>2" },
    { word := "attachments", valueType := .count, lists := [.messages],
      values := [], example' := "attachments:>0" },
    { word := "trashed", valueType := .flag, lists := [.contacts, .conversations, .messages],
      values := ["yes", "no", "any"], example' := "trashed:yes" } ]

/-- The spec for a word, on any list. -/
def lookup (word : String) : Option FieldSpec := fields.find? (fun f => f.word == word)

/-- The words one list accepts, in registry order. -/
def forList (list : ListKind) : List FieldSpec := fields.filter (fun f => f.lists.contains list)

/-- The cells of one row of the distance table after its first: `diag` and `left` are the
cells before, `above` the rest of the row before. -/
def editCells (ca : Char) : List Char → Nat → Nat → List Nat → List Nat
  | cb :: b, diag, left, above :: row =>
    let cost := if ca ≠ cb then 1 else 0
    let cell := min (min (above + 1) (left + 1)) (diag + cost)
    cell :: editCells ca b above cell row
  | _, _, _, _ => []

/-- Row `i` of the distance table, from the row before. -/
def editRow (ca : Char) (i : Nat) (b : List Char) : List Nat → List Nat
  | [] => []
  | diag :: row => i :: editCells ca b diag i row

/-- Levenshtein distance between two words. -/
def editDistance (a b : String) : Nat :=
  let start := List.range (b.toList.length + 1)
  let last := a.toList.zipIdx.foldl (fun row c => editRow c.1 (c.2 + 1) b.toList row) start
  last.getLast?.getD 0

/-- A word on `list` within two edits of `word`, for "did you mean". -/
def nearest (word : String) (list : ListKind) : Option String :=
  let near := (forList list).map (fun f => (editDistance word f.word, f.word))
  ((near.filter (fun p => p.1 ≤ 2)).minOn? Prod.fst).map Prod.snd

example : nearest "servce" .messages = some "service" := by decide +kernel

theorem lookup_mem {word : String} {spec : FieldSpec} (h : lookup word = some spec) :
    spec ∈ fields ∧ spec.word = word := by
  have hword := List.find?_some h
  exact ⟨List.mem_of_find?_eq_some h, by simpa using hword⟩

/-- Every word is registered once. -/
theorem lookup_word {spec : FieldSpec} (h : spec ∈ fields) : lookup spec.word = some spec := by
  have hall : ∀ s ∈ fields, lookup s.word = some s := by decide
  exact hall spec h

/-- Only a word the list accepts is ever suggested. -/
theorem nearest_mem {word near : String} {list : ListKind} (h : nearest word list = some near) :
    ∃ spec ∈ fields, spec.word = near ∧ list ∈ spec.lists := by
  unfold nearest at h
  rw [Option.map_eq_some_iff] at h
  obtain ⟨p, hp, rfl⟩ := h
  have hmem := List.minOn?_mem hp
  obtain ⟨hnear, -⟩ := List.mem_filter.mp hmem
  obtain ⟨spec, hspec, rfl⟩ := List.mem_map.mp hnear
  obtain ⟨hfield, hlist⟩ := List.mem_filter.mp hspec
  exact ⟨spec, hfield, rfl, by simpa using hlist⟩

end MessageCrate

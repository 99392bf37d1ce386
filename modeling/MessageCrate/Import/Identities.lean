import MessageCrate.Import.Promote
import MessageCrate.Ir.Phone

/- Identities and the contacts they are on, as an import writes them
   (`db/handles.rs`, `db/contacts.rs`, and the discard of `db/trash.rs`).

   An identity is a row of `handles`; `contact_handles` puts it on at most one contact of the
   account. An identity leaves a contact through `moveIdentity` alone: to a contact it is
   given, or off, and then `identityUse` says whether it goes to a new contact with no name,
   to no contact, or away. A row that names a handle or a contact that is not there is
   refused, which makes a step `none`.

   Correspondence (Rust ↔ Lean):
     `handles`, `contacts`, …                 ↔ the fields of `Book`
     `contact_handles`' rowid                 ↔ `ContactHandleRow.id`
     `ON DELETE CASCADE`                      ↔ `deleteHandle`, `deleteContact`
     `LIMIT 1` without an `ORDER BY`          ↔ the head of a `Walk`'s order
     `IdentityMoved`                          ↔ `IdentityMoved`

   Left out: when a row was made or last changed, and what a run records of the contacts it
   touches. No row of another table refers to a handle that is deleted: `identityUse` has
   just found none. -/
namespace MessageCrate
open Text Grouping SqlTable

/-! Tables. -/

/-- What made a contact or a link. -/
inductive Origin where
  | addressBook
  | imported
  | user
  deriving DecidableEq, Repr

structure HandleRow where
  id : Int
  accountId : Int
  raw : String
  normalized : String
  normalizedNote : Option String
  handleType : HandleType
  service : HandleService
  deriving DecidableEq, Repr

structure ContactRow where
  id : Int
  accountId : Int
  preferredName : String
  origin : Origin
  deriving DecidableEq, Repr

structure ContactHandleRow where
  id : Int
  accountId : Int
  handleId : Int
  contactId : Int
  origin : Origin
  deriving DecidableEq, Repr

/-- What one identity of an account is known by. -/
structure HandleKey where
  normalized : String
  handleType : HandleType
  service : HandleService
  deriving DecidableEq, Repr

def HandleRow.handleKey (h : HandleRow) : HandleKey := ⟨h.normalized, h.handleType, h.service⟩

/-- `UNIQUE(account_id, normalized, handle_type, service)`. -/
instance : Row HandleRow (Int × HandleKey) where
  id := HandleRow.id
  key h := some (h.accountId, h.handleKey)

instance : Row ContactRow Empty where
  id := ContactRow.id
  key _ := none

/-- `PRIMARY KEY (account_id, handle_id)`. -/
instance : Row ContactHandleRow (Int × Int) where
  id := ContactHandleRow.id
  key ch := some (ch.accountId, ch.handleId)

/-- The identities and contacts of every account. -/
structure Book where
  handles : Table HandleRow
  contacts : Table ContactRow
  contactHandles : Table ContactHandleRow
  /-- `(account, contact)` pairs. -/
  trashedContacts : List (Int × Int)
  /-- `(account, handle)` pairs: the identities that are the account holder's own. -/
  accountHandles : List (Int × Int)

/-! Identities. -/

/-- The row a new identity is stored in. -/
def newHandle (accountId : Int) (raw : String) (normalizedNote : Option String)
    (key : HandleKey) : New HandleRow where
  row i := ⟨i, accountId, raw, key.normalized, normalizedNote, key.handleType, key.service⟩
  key := some (accountId, key)
  id_row _ := rfl
  key_row _ := rfl

section
variable (toLowercase : String → String)

/-- The key `raw` is stored under. -/
def handleKey (raw : String) (handleType : HandleType) (service : Option String) : HandleKey :=
  ⟨(normalizeTypedHandle toLowercase raw handleType).1, handleType,
    HandleService.parse (service.getD HandleService.phone.asStr)⟩

/-- Inserts or reuses a handle row. Its id, and whether a flagged row was inserted. -/
def upsertHandleRow (accountId : Int) (raw : String) (handleType : HandleType)
    (service : Option String) (book : Book) : Option (Book × Int × Bool) := do
  let note := (normalizeTypedHandle toLowercase raw handleType).2
  let row := newHandle accountId raw note (handleKey toLowercase raw handleType service)
  let inserted := !book.handles.holds row.key
  let book := { book with handles := book.handles.insertOrIgnore row }
  let found ← book.handles.find? (accountId, handleKey toLowercase raw handleType service)
  return (book, found.id, inserted && note.isSome)

/-- Handle id by key, for one import. -/
abbrev HandleIdCache := List (HandleKey × Int)

/-- `upsertHandleRow`, but an identity this import has resolved is not looked up again; the
last value is `true` on a cache hit. -/
def upsertHandleRowCached (accountId : Int) (raw : String) (handleType : HandleType)
    (service : Option String) (cache : HandleIdCache) (book : Book) :
    Option (Book × HandleIdCache × Int × Bool × Bool) :=
  match cache.lookup (handleKey toLowercase raw handleType service) with
  | some id => some (book, cache, id, false, true)
  | none => do
    let (book, id, flagged) ← upsertHandleRow toLowercase accountId raw handleType service book
    return (book, (handleKey toLowercase raw handleType service, id) :: cache, id, flagged, false)

end

/-! Contacts. -/

namespace Book
variable (accountId : Int)

/-- The contact a handle is on. -/
def contactIdForHandle (handleId : Int) (book : Book) : Option Int :=
  (book.contactHandles.find? (accountId, handleId)).map ContactHandleRow.contactId

def isContactTrashed (contactId : Int) (book : Book) : Bool :=
  book.trashedContacts.contains (accountId, contactId)

/-- A handle of the account. -/
def handleOf (handleId : Int) (book : Book) : Option HandleRow :=
  book.handles.rows.find? (fun h => h.id = handleId ∧ h.accountId = accountId)

/-- The same address and type, on another service. -/
def siblings (handleId : Int) (book : Book) : List HandleRow :=
  match book.handleOf accountId handleId with
  | some h => book.handles.rows.filter (fun h' => h'.accountId = h.accountId ∧
      h'.normalized = h.normalized ∧ h'.handleType = h.handleType ∧ h'.id ≠ h.id)
  | none => []

/-- A contact that a sibling of the handle is on. -/
def contactIdOfSiblingHandle (w : Walk) (handleId : Int) (book : Book) : Option Int :=
  (w.order ((book.siblings accountId handleId).filterMap
    (fun h => book.contactIdForHandle accountId h.id))).head?

/-- The siblings of the handle on one contact, in id order. -/
def siblingsOnContact (handleId contactId : Int) (book : Book) : List Int :=
  (((book.siblings accountId handleId).filter
    (fun h => book.contactIdForHandle accountId h.id = some contactId)).map
      HandleRow.id).insertionSort (· ≤ ·)

/-- The identities of a contact, in the order they were linked. -/
def identitiesOfContact (contactId : Int) (book : Book) : List Int :=
  ((book.contactHandles.rows.insertionSort (fun ch ch' => ch.id ≤ ch'.id)).filter
    (fun ch => ch.accountId = accountId ∧ ch.contactId = contactId)).map ContactHandleRow.handleId

/-- Whether a link's two foreign keys name rows. -/
def canLink (handleId contactId : Int) (book : Book) : Bool :=
  book.handles.rows.any (fun h => h.id = handleId) &&
    book.contacts.rows.any (fun c => c.id = contactId)

end Book

/-- The link of a handle to a contact; a link there is takes the contact and the origin. -/
def contactLink (accountId handleId contactId : Int) (origin : Origin) :
    Table.Upsert ContactHandleRow where
  new := {
    row := fun i => ⟨i, accountId, handleId, contactId, origin⟩
    key := some (accountId, handleId)
    id_row := fun _ => rfl
    key_row := fun _ => rfl }
  change := {
    apply := fun ch => { ch with contactId := contactId, origin := origin }
    id_apply := fun _ => rfl
    key_apply := fun _ => Or.inl rfl }
  keeps _ := rfl
  settled_row _ := rfl
  settled _ := rfl

/-- A contact with a name, which may be empty. -/
def newContact (accountId : Int) (preferredName : String) (origin : Origin) :
    New ContactRow where
  row i := ⟨i, accountId, preferredName, origin⟩
  key := none
  id_row _ := rfl
  key_row _ := rfl

namespace Book
variable (accountId : Int)

/-- Links a handle to a contact, doing nothing when it is on one. -/
def linkHandleToContact (handleId contactId : Int) (origin : Origin) (book : Book) :
    Option (Book × Bool) :=
  let link := (contactLink accountId handleId contactId origin).new
  if book.contactHandles.holds link.key then some (book, false)
  else if book.canLink handleId contactId then
    some ({ book with contactHandles := book.contactHandles.insertOrIgnore link }, true)
  else none

/-- Links a handle to a contact, moving it there when another holds it. -/
def putOnContact (handleId contactId : Int) (origin : Origin) (book : Book) : Option Book :=
  if book.canLink handleId contactId then
    some { book with
      contactHandles := book.contactHandles.upsert (contactLink accountId handleId contactId origin) }
  else none

def createContact (preferredName : String) (origin : Origin) (book : Book) : Book × Int :=
  ({ book with
    contacts := book.contacts.insertOrIgnore (newContact accountId preferredName origin) },
    book.contacts.nextId)

/-- Whether a name offered to a contact is taken. The person outranks everything; an address
book replaces a name that differs; an import names only a contact an import left nameless. -/
def takesName (by_ : Origin) (name : String) (c : ContactRow) : Bool :=
  match by_ with
  | .user => true
  | .addressBook => sqlTrim c.preferredName ≠ name
  | .imported => c.origin = .imported ∧ sqlTrim c.preferredName = ""

/-- Offers a name as the contact's preferred one. -/
def proposeName (contactId : Int) (name : String) (by_ : Origin) (book : Book) : Book :=
  let name := trim name
  if name = "" then book
  else { book with contacts := book.contacts.update {
    apply := fun c =>
      if c.accountId = accountId ∧ c.id = contactId ∧ takesName by_ name c then
        { c with preferredName := name, origin := if by_ = .user then .user else c.origin }
      else c
    id_apply := fun c => by split <;> rfl
    key_apply := fun c => by split <;> exact Or.inl rfl } }

/-- `DELETE FROM handles …`, and the links that go with the row. -/
def deleteHandle (handleId : Int) (book : Book) : Book :=
  { book with
    handles := book.handles.delete (fun h : HandleRow => h.accountId = accountId ∧ h.id = handleId)
    contactHandles := book.contactHandles.delete (fun ch : ContactHandleRow =>
      ch.handleId = handleId)
    accountHandles := book.accountHandles.filter (fun p => p.2 ≠ handleId) }

/-- `DELETE FROM contact_handles …` of one handle. -/
def unlinkHandle (handleId : Int) (book : Book) : Book :=
  { book with
    contactHandles := book.contactHandles.delete (fun ch : ContactHandleRow =>
      ch.accountId = accountId ∧ ch.handleId = handleId) }

/-- `DELETE FROM contacts …`, and the links that go with the row. -/
def deleteContact (contactId : Int) (book : Book) : Book :=
  { book with
    contacts := book.contacts.delete (fun c : ContactRow => c.accountId = accountId ∧ c.id = contactId)
    contactHandles := book.contactHandles.delete (fun ch : ContactHandleRow =>
      ch.contactId = contactId) }

end Book

/-! Identities that leave a contact. -/

/-- What refers to an identity. -/
inductive IdentityUse where
  /-- A participant, a sender, or a one-to-one conversation's chat handle. -/
  | person
  /-- Only the account holder's side, or a group's id. -/
  | holder
  | nothing
  deriving DecidableEq, Repr

/-- What a person does in a conversation, in the production tables or in staging. -/
def isPerson (accountId handleId : Int) (db : Db) (s : Staging) : Bool :=
  db.participants.rows.any (fun p => p.handleId = handleId) ||
  s.participants.rows.any (fun p => p.handleId = handleId) ||
  db.messages.rows.any (fun m => m.accountId = accountId ∧ m.senderHandleId = some handleId) ||
  s.messages.rows.any (fun m => m.accountId = accountId ∧ m.senderHandleId = some handleId) ||
  db.tapbacks.rows.any (fun t => t.senderHandleId = some handleId) ||
  s.tapbacks.rows.any (fun t => t.senderHandleId = some handleId) ||
  db.conversations.rows.any (fun c => c.accountId = accountId ∧ c.chatHandleId = handleId ∧
    toAsciiLower c.conversationType = "individual") ||
  s.conversations.rows.any (fun c => c.accountId = accountId ∧ c.chatHandleId = handleId ∧
    toAsciiLower c.conversationType = "individual")

/-- What the account holder's side uses. -/
def isHolders (accountId handleId : Int) (db : Db) (s : Staging) (book : Book) : Bool :=
  db.messages.rows.any (fun m => m.accountId = accountId ∧ m.ownerHandleId = some handleId) ||
  s.messages.rows.any (fun m => m.accountId = accountId ∧ m.ownerHandleId = some handleId) ||
  book.accountHandles.contains (accountId, handleId) ||
  db.conversations.rows.any (fun c => c.accountId = accountId ∧ c.chatHandleId = handleId) ||
  s.conversations.rows.any (fun c => c.accountId = accountId ∧ c.chatHandleId = handleId)

def identityUse (accountId handleId : Int) (db : Db) (s : Staging) (book : Book) : IdentityUse :=
  if isPerson accountId handleId db s then .person
  else if isHolders accountId handleId db s book then .holder
  else .nothing

/-- Where an identity goes when it leaves its contact. -/
inductive IdentityGoes where
  | to (contactId : Int) (origin : Origin)
  | off
  deriving DecidableEq, Repr

/-- What was done with an identity. -/
inductive IdentityMoved where
  | to (contactId : Int)
  | newContact (contactId : Int)
  | unlinked
  | deleted
  deriving DecidableEq, Repr

section
variable (accountId : Int) (db : Db) (s : Staging)

/-- The one way an identity leaves a contact. -/
def moveIdentity (handleId : Int) (goes : IdentityGoes) (book : Book) :
    Option (Book × IdentityMoved) :=
  match goes with
  | .to contactId origin => do
    let book ← book.putOnContact accountId handleId contactId origin
    return (book, .to contactId)
  | .off =>
    match identityUse accountId handleId db s book with
    | .person => do
      let (book, contactId) := book.createContact accountId "" .imported
      let book ← book.putOnContact accountId handleId contactId .imported
      return (book, .newContact contactId)
    | .holder => some (book.unlinkHandle accountId handleId, .unlinked)
    | .nothing => some (book.deleteHandle accountId handleId, .deleted)

/-- Takes each handle off its contact, in order. Siblings among them that go to a new contact
go to the same one, which `newContactOf` keeps by address and type. -/
def takeIdentitiesOff (handleIds : List Int) (newContactOf : List ((String × HandleType) × Int))
    (book : Book) : Option Book :=
  match handleIds with
  | [] => some book
  | handleId :: rest =>
    match book.handleOf accountId handleId with
    | none => takeIdentitiesOff rest newContactOf book
    | some h =>
      match newContactOf.lookup (h.normalized, h.handleType) with
      | some contactId => do
        let (book, _) ← moveIdentity accountId db s handleId (.to contactId .imported) book
        takeIdentitiesOff rest newContactOf book
      | none => do
        let (book, moved) ← moveIdentity accountId db s handleId .off book
        match moved with
        | .newContact contactId =>
          takeIdentitiesOff rest (((h.normalized, h.handleType), contactId) :: newContactOf) book
        | _ => takeIdentitiesOff rest newContactOf book

/-- Deletes a trashed contact for good, once each of its identities has left it. -/
def discardTrashedContact (contactId : Int) (book : Book) : Option Book := do
  let book ← takeIdentitiesOff accountId db s (book.identitiesOfContact accountId contactId) [] book
  let book := book.deleteContact accountId contactId
  return { book with
    trashedContacts := book.trashedContacts.filter (fun p => p ≠ (accountId, contactId)) }

end

end MessageCrate

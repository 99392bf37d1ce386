import MessageCrate.Import.Identities

/- Identities taken off their contacts (`db/contacts.rs`, `take_identities_off`).

   An identity that a conversation uses as a person goes to a new contact with no name, one
   that only the account holder's side uses to no contact, and one that nothing uses goes
   away. Siblings, one number on two services, share the new contact: the loop keeps the
   contact it made for each number and type.

   1. `Place`, `Puts`: where an identity is, and what one step does to where each is.
   2. `Takes`: what the loop does with one identity of the list.
   3. `Settled`: what holds of the identities taken so far, when no sibling of a person is
      used otherwise (`settled_takeIdentitiesOff`).
   4. `takes_off_iff`: with such a sibling in the list the order decides. After the person it
      goes to the person's new contact, before the person to where its own use says. -/
namespace MessageCrate
open Text Grouping SqlTable

/-- Where an identity of the account is. -/
inductive Place (γ : Type) where
  | gone
  | off
  | on (contact : γ)
  deriving DecidableEq, Repr

/-- The value and type that siblings share. -/
abbrev SiblingKey := String × HandleType

def HandleRow.siblingKey (h : HandleRow) : SiblingKey := (h.normalized, h.handleType)

/-- The place of an identity there is, by its link. -/
def Place.ofLink : Option Int → Place Int
  | none => .off
  | some contactId => .on contactId

def Book.placeOf (accountId handleId : Int) (book : Book) : Place Int :=
  match book.handleOf accountId handleId with
  | none => .gone
  | some _ => .ofLink (book.contactIdForHandle accountId handleId)

section places
variable {accountId handleId contactId : Int} {origin : Origin} {db : Db} {s : Staging}
  {book book' : Book}

theorem placeOf_eq_gone :
    book.placeOf accountId handleId = .gone ↔ book.handleOf accountId handleId = none := by
  unfold Book.placeOf
  split
  · next h => simp [h]
  · next h =>
    rw [h]
    cases book.contactIdForHandle accountId handleId with
    | none => simp [Place.ofLink]
    | some contactId => simp [Place.ofLink]

/-- One step puts an identity at a place and leaves every other where it is. -/
structure Puts (accountId : Int) (db : Db) (s : Staging) (handleId : Int) (place : Place Int)
    (book book' : Book) : Prop where
  placed : ∀ x, book'.placeOf accountId x =
    if x = handleId then place else book.placeOf accountId x
  row : ∀ x, x ≠ handleId ∨ place ≠ .gone →
    book'.handleOf accountId x = book.handleOf accountId x
  use : ∀ x, x ≠ handleId ∨ place ≠ .gone →
    identityUse accountId x db s book' = identityUse accountId x db s book
  contacts : ∀ c ∈ book.contacts.rows, c ∈ book'.contacts.rows

/-- A step that sets one identity's link and leaves the rows of all of them. -/
theorem moves_of_link (link : Option Int)
    (hhandle : (book.handleOf accountId handleId).isSome = true)
    (hhandles : book'.handles = book.handles)
    (hholder : book'.accountHandles = book.accountHandles)
    (hcontacts : ∀ c ∈ book.contacts.rows, c ∈ book'.contacts.rows)
    (hlink : ∀ x, book'.contactIdForHandle accountId x =
      if x = handleId then link else book.contactIdForHandle accountId x) :
    Puts accountId db s handleId (.ofLink link) book book' := by
  have hrow : ∀ x, book'.handleOf accountId x = book.handleOf accountId x := by
    intro x
    rw [Book.handleOf, Book.handleOf, hhandles]
  refine ⟨fun x => ?_, fun x _ => hrow x, fun x _ => ?_, hcontacts⟩
  · obtain ⟨h, hh⟩ := Option.isSome_iff_exists.mp hhandle
    by_cases hx : x = handleId
    · subst hx
      rw [if_pos rfl, Book.placeOf, hrow, hh, hlink, if_pos rfl]
    · rw [if_neg hx, Book.placeOf, Book.placeOf, hrow, hlink, if_neg hx]
  · unfold identityUse isHolders
    rw [hholder]

/-- A link to a contact there is goes through. -/
theorem moves_putOnContact (db : Db) (s : Staging) (origin : Origin)
    (hhandle : (book.handleOf accountId handleId).isSome = true)
    (hcontact : ∃ c ∈ book.contacts.rows, c.id = contactId) :
    ∃ book', book.putOnContact accountId handleId contactId origin = some book' ∧
      book'.contacts = book.contacts ∧
      Puts accountId db s handleId (.on contactId) book book' := by
  obtain ⟨h, hh⟩ := Option.isSome_iff_exists.mp hhandle
  obtain ⟨c, hc, hid⟩ := hcontact
  have hcan : book.canLink handleId contactId = true := by
    have hmem := List.mem_of_find?_eq_some hh
    have hfound := List.find?_some hh
    simp only [decide_eq_true_eq] at hfound
    rw [Book.canLink, Bool.and_eq_true, List.any_eq_true, List.any_eq_true]
    exact ⟨⟨h, hmem, by simp [hfound.1]⟩, c, hc, by simp [hid]⟩
  refine ⟨_, if_pos hcan, rfl,
    moves_of_link (some contactId) hhandle rfl rfl (fun c hc => hc) (fun x => ?_)⟩
  rw [Book.contactIdForHandle, Table.find?_upsert (k := (accountId, handleId)) rfl]
  by_cases hx : x = handleId
  · subst hx
    rw [if_pos rfl, if_pos rfl]
    cases book.contactHandles.find? (accountId, x) with
    | none => rfl
    | some link => rfl
  · have hkey : (accountId, x) ≠ (accountId, handleId) := fun h => hx (Prod.mk.inj h).2
    rw [if_neg hkey, if_neg hx]
    rfl

/-- The link found under a handle's key is the handle's. -/
theorem link_of_find? {link : ContactHandleRow} {x : Int}
    (h : book.contactHandles.find? (accountId, x) = some link) :
    link.accountId = accountId ∧ link.handleId = x := by
  have hkey : some (link.accountId, link.handleId) = some (accountId, x) :=
    (Table.find?_eq_some.mp h).2
  exact Prod.mk.inj (Option.some.inj hkey)

theorem moves_unlinkHandle (hhandle : (book.handleOf accountId handleId).isSome = true) :
    Puts accountId db s handleId .off book (book.unlinkHandle accountId handleId) := by
  refine moves_of_link none hhandle rfl rfl (fun c hc => hc) (fun x => ?_)
  rw [Book.contactIdForHandle, Book.unlinkHandle, Table.find?_delete, Book.contactIdForHandle]
  cases hfind : book.contactHandles.find? (accountId, x) with
  | none => simp
  | some link =>
    obtain ⟨hacc, hid⟩ := link_of_find? hfind
    by_cases hx : x = handleId
    · simp [Option.filter, hacc, hid, hx]
    · simp [Option.filter, hid, hx]

theorem moves_deleteHandle :
    Puts accountId db s handleId .gone book (book.deleteHandle accountId handleId) := by
  have hrow : ∀ x, (book.deleteHandle accountId handleId).handleOf accountId x =
      if x = handleId then none else book.handleOf accountId x := by
    intro x
    rw [Book.handleOf, Book.deleteHandle, Table.rows_delete, List.find?_filter]
    by_cases hx : x = handleId
    · rw [if_pos hx, List.find?_eq_none]
      intro h _
      simp only [decide_eq_true_eq, hx]
      rintro ⟨hkept, hid, hacc⟩
      simp [hid, hacc] at hkept
    · rw [if_neg hx, Book.handleOf]
      congr 1
      funext h
      by_cases hid : h.id = x
      · simp [hid, hx]
      · simp [hid]
  have hlink : ∀ x, x ≠ handleId → (book.deleteHandle accountId handleId).contactIdForHandle
      accountId x = book.contactIdForHandle accountId x := by
    intro x hx
    rw [Book.contactIdForHandle, Book.deleteHandle, Table.find?_delete, Book.contactIdForHandle]
    cases hfind : book.contactHandles.find? (accountId, x) with
    | none => rfl
    | some link =>
      obtain ⟨-, hid⟩ := link_of_find? hfind
      simp [Option.filter, hid, hx]
  refine ⟨fun x => ?_, fun x hx => ?_, fun x hx => ?_, fun c hc => hc⟩
  · by_cases hx : x = handleId
    · rw [if_pos hx, placeOf_eq_gone, hrow, if_pos hx]
    · rw [if_neg hx, Book.placeOf, Book.placeOf, hrow, if_neg hx, hlink x hx]
  · rw [hrow, if_neg (hx.resolve_right (fun h => h rfl))]
  · have hne : x ≠ handleId := hx.resolve_right (fun h => h rfl)
    have hholder : (book.deleteHandle accountId handleId).accountHandles.contains (accountId, x) =
        book.accountHandles.contains (accountId, x) := by
      rw [Bool.eq_iff_iff, List.contains_iff_mem, List.contains_iff_mem, Book.deleteHandle]
      simp [hne]
    unfold identityUse isHolders
    rw [hholder]

end places

/-! The loop. -/

/-- The contact the loop has made for each number and type. -/
abbrev NewContacts := List (SiblingKey × Int)

/-- What the loop does with one identity of its list. -/
inductive Takes (accountId : Int) (db : Db) (s : Staging) (handleId : Int) :
    NewContacts → Book → NewContacts → Book → Prop
  | absent {made : NewContacts} {book : Book} : book.handleOf accountId handleId = none →
      Takes accountId db s handleId made book made book
  | sibling {made : NewContacts} {book book' : Book} {h : HandleRow} {contactId : Int} :
      book.handleOf accountId handleId = some h → made.lookup h.siblingKey = some contactId →
      Puts accountId db s handleId (.on contactId) book book' →
      Takes accountId db s handleId made book made book'
  | person {made : NewContacts} {book book' : Book} {h : HandleRow} {contactId : Int} :
      book.handleOf accountId handleId = some h → made.lookup h.siblingKey = none →
      identityUse accountId handleId db s book = .person →
      (∀ c ∈ book.contacts.rows, c.id ≠ contactId) →
      (⟨contactId, accountId, "", .imported⟩ : ContactRow) ∈ book'.contacts.rows →
      Puts accountId db s handleId (.on contactId) book book' →
      Takes accountId db s handleId made book ((h.siblingKey, contactId) :: made) book'
  | holder {made : NewContacts} {book book' : Book} {h : HandleRow} :
      book.handleOf accountId handleId = some h → made.lookup h.siblingKey = none →
      identityUse accountId handleId db s book = .holder →
      Puts accountId db s handleId .off book book' →
      Takes accountId db s handleId made book made book'
  | nothing {made : NewContacts} {book book' : Book} {h : HandleRow} :
      book.handleOf accountId handleId = some h → made.lookup h.siblingKey = none →
      identityUse accountId handleId db s book = .nothing →
      Puts accountId db s handleId .gone book book' →
      Takes accountId db s handleId made book made book'

section loop
variable {accountId handleId contactId : Int} {db : Db} {s : Staging} {book book' start : Book}
  {made made' : NewContacts} {rest done : List Int}

/-- Every contact the loop has made is there. -/
def AllMade (made : NewContacts) (book : Book) : Prop :=
  ∀ k contactId, made.lookup k = some contactId → ∃ c ∈ book.contacts.rows, c.id = contactId

/-- A new contact is under an id no contact has. -/
theorem createContact_fresh (accountId : Int) (book : Book) :
    (∀ c ∈ book.contacts.rows, c.id ≠ book.contacts.nextId) ∧
    (⟨book.contacts.nextId, accountId, "", .imported⟩ : ContactRow) ∈
      (book.createContact accountId "" .imported).1.contacts.rows ∧
    ∀ c ∈ book.contacts.rows, c ∈ (book.createContact accountId "" .imported).1.contacts.rows := by
  refine ⟨fun c hc => Table.id_ne_nextId hc, ?_, fun c hc => ?_⟩
  · exact Table.mem_insertOrIgnore.mpr (.inr ⟨rfl, rfl⟩)
  · exact Table.mem_insertOrIgnore.mpr (.inl hc)

/-- The identity at the head of the list is taken, and the loop goes on. -/
theorem takeIdentitiesOff_cons (db : Db) (s : Staging) (handleId : Int) (rest : List Int)
    (hmade : AllMade made book) :
    ∃ made' book', Takes accountId db s handleId made book made' book' ∧
      takeIdentitiesOff accountId db s (handleId :: rest) made book =
        takeIdentitiesOff accountId db s rest made' book' := by
  rw [takeIdentitiesOff]
  cases hrow : book.handleOf accountId handleId with
  | none => exact ⟨made, book, .absent hrow, rfl⟩
  | some h =>
    have hsome : (book.handleOf accountId handleId).isSome = true := by rw [hrow]; rfl
    simp only
    cases hlookup : made.lookup (h.normalized, h.handleType) with
    | some contactId =>
      obtain ⟨book', hput, -, hmoves⟩ :=
        moves_putOnContact db s .imported hsome (hmade _ _ hlookup)
      refine ⟨made, book', .sibling hrow hlookup hmoves, ?_⟩
      simp [moveIdentity, hput]
    | none =>
      cases huse : identityUse accountId handleId db s book with
      | person =>
        obtain ⟨hfresh, hnew, hold⟩ := createContact_fresh accountId book
        obtain ⟨book', hput, hsame, hmoves⟩ : ∃ book',
            (book.createContact accountId "" .imported).1.putOnContact accountId handleId
              book.contacts.nextId .imported = some book' ∧
            book'.contacts = (book.createContact accountId "" .imported).1.contacts ∧
            Puts accountId db s handleId (.on book.contacts.nextId)
              (book.createContact accountId "" .imported).1 book' :=
          moves_putOnContact db s .imported hsome ⟨_, hnew, rfl⟩
        refine ⟨_, book', .person hrow hlookup huse hfresh (hsame ▸ hnew) ⟨hmoves.placed,
          hmoves.row, hmoves.use, fun c hc => hmoves.contacts c (hold c hc)⟩, ?_⟩
        have hcontact : (book.createContact accountId "" .imported).2 = book.contacts.nextId := rfl
        simp [moveIdentity, huse, hcontact, hput, HandleRow.siblingKey]
      | holder =>
        refine ⟨made, _, .holder hrow hlookup huse (moves_unlinkHandle hsome), ?_⟩
        simp [moveIdentity, huse]
      | nothing =>
        refine ⟨made, _, .nothing hrow hlookup huse moves_deleteHandle, ?_⟩
        simp [moveIdentity, huse]

/-- What the call made: contacts with no name that were not there before. -/
theorem AllMade.takes (hmade : AllMade made book)
    (h : Takes accountId db s handleId made book made' book') : AllMade made' book' := by
  have hgrown : (∀ c ∈ book.contacts.rows, c ∈ book'.contacts.rows) → AllMade made book' := by
    intro hcontacts k contactId hlookup
    obtain ⟨c, hc, hid⟩ := hmade k contactId hlookup
    exact ⟨c, hcontacts c hc, hid⟩
  cases h with
  | absent _ => exact hmade
  | sibling _ _ hmoves => exact hgrown hmoves.contacts
  | person _ _ _ _ hnew hmoves =>
    intro k contactId hlookup
    rw [List.lookup_cons] at hlookup
    split at hlookup
    · cases hlookup
      exact ⟨_, hnew, rfl⟩
    · exact hgrown hmoves.contacts k contactId hlookup
  | holder _ _ _ hmoves => exact hgrown hmoves.contacts
  | nothing _ _ _ hmoves => exact hgrown hmoves.contacts

/-- Where an identity belongs, by its use and its key. -/
def fate (accountId : Int) (db : Db) (s : Staging) (start : Book) (handleId : Int) :
    Place SiblingKey :=
  match start.handleOf accountId handleId with
  | none => .gone
  | some h =>
    match identityUse accountId handleId db s start with
    | .person => .on h.siblingKey
    | .holder => .off
    | .nothing => .gone

/-- The place is the one the fate names, on the contact made for the key. -/
def Meets (made : NewContacts) : Place SiblingKey → Place Int → Prop
  | .gone, place => place = .gone
  | .off, place => place = .off
  | .on k, place => ∃ contactId, made.lookup k = some contactId ∧ place = .on contactId

/-- The contacts made so far: new ones with no name, one for each key of a person. -/
structure Made (accountId : Int) (db : Db) (s : Staging) (start book : Book)
    (made : NewContacts) (done : List Int) : Prop where
  fresh : ∀ k contactId, made.lookup k = some contactId →
    (⟨contactId, accountId, "", .imported⟩ : ContactRow) ∈ book.contacts.rows ∧
      ∀ c ∈ start.contacts.rows, c.id ≠ contactId
  apart : ∀ k k' contactId, made.lookup k = some contactId → made.lookup k' = some contactId →
    k = k'
  known : ∀ k contactId, made.lookup k = some contactId →
    ∃ p ∈ done, fate accountId db s start p = .on k

/-- What holds when the identities of `done` have been taken off, from `start`. -/
structure Settled (accountId : Int) (db : Db) (s : Staging) (start book : Book)
    (made : NewContacts) (done : List Int) : Prop where
  row : ∀ x, book.placeOf accountId x ≠ .gone →
    book.handleOf accountId x = start.handleOf accountId x
  use : ∀ x, book.placeOf accountId x ≠ .gone →
    identityUse accountId x db s book = identityUse accountId x db s start
  absent : ∀ x, start.handleOf accountId x = none → book.placeOf accountId x = .gone
  rest : ∀ x, x ∉ done → book.placeOf accountId x = start.placeOf accountId x
  met : ∀ x ∈ done, Meets made (fate accountId db s start x) (book.placeOf accountId x)
  grown : ∀ c ∈ start.contacts.rows, c ∈ book.contacts.rows
  made : Made accountId db s start book made done

theorem Settled.initial (accountId : Int) (db : Db) (s : Staging) (start : Book) :
    Settled accountId db s start start [] [] where
  row _ _ := rfl
  use _ _ := rfl
  absent _ h := placeOf_eq_gone.mpr h
  rest _ _ := rfl
  met _ h := absurd h List.not_mem_nil
  grown _ h := h
  made := ⟨fun _ _ h => (by cases h), fun _ _ _ h _ => (by cases h), fun _ _ h => (by cases h)⟩

theorem Settled.allMade (h : Settled accountId db s start book made done) : AllMade made book :=
  fun k contactId hlookup => ⟨_, (h.made.fresh k contactId hlookup).1, rfl⟩

/-- A step that makes no contact. -/
theorem Made.moves {place : Place Int} (h : Made accountId db s start book made done)
    (hmoves : Puts accountId db s handleId place book book') :
    Made accountId db s start book' made (done ++ [handleId]) where
  fresh k contactId hlookup := by
    obtain ⟨hnew, hfresh⟩ := h.fresh k contactId hlookup
    exact ⟨hmoves.contacts _ hnew, hfresh⟩
  apart := h.apart
  known k contactId hlookup := by
    obtain ⟨p, hp, hfate⟩ := h.known k contactId hlookup
    exact ⟨p, List.mem_append_left _ hp, hfate⟩

/-- A step that makes one, for a key there was none for. -/
theorem Made.cons {place : Place Int} {k : SiblingKey}
    (h : Made accountId db s start book made done)
    (hgrown : ∀ c ∈ start.contacts.rows, c ∈ book.contacts.rows)
    (hmoves : Puts accountId db s handleId place book book')
    (hfresh : ∀ c ∈ book.contacts.rows, c.id ≠ contactId)
    (hnew : (⟨contactId, accountId, "", .imported⟩ : ContactRow) ∈ book'.contacts.rows)
    (hfate : fate accountId db s start handleId = .on k) :
    Made accountId db s start book' ((k, contactId) :: made) (done ++ [handleId]) := by
  have hmade := h.moves hmoves
  have hother : ∀ k' contactId', made.lookup k' = some contactId' → contactId' ≠ contactId := by
    rintro k' contactId' hlookup rfl
    exact hfresh _ (h.fresh k' _ hlookup).1 rfl
  refine ⟨fun k' contactId' hlookup => ?_, fun k₁ k₂ contactId' h₁ h₂ => ?_,
    fun k' contactId' hlookup => ?_⟩
  · rw [List.lookup_cons] at hlookup
    split at hlookup
    · cases hlookup
      exact ⟨hnew, fun c hc => hfresh c (hgrown c hc)⟩
    · exact hmade.fresh k' contactId' hlookup
  · rw [List.lookup_cons] at h₁ h₂
    split at h₁
    · next hk₁ =>
      split at h₂
      · next hk₂ => rw [beq_iff_eq.mp hk₁, beq_iff_eq.mp hk₂]
      · exact absurd (Option.some.inj h₁).symm (hother k₂ contactId' h₂)
    · split at h₂
      · exact absurd (Option.some.inj h₂).symm (hother k₁ contactId' h₁)
      · exact hmade.apart k₁ k₂ contactId' h₁ h₂
  · rw [List.lookup_cons] at hlookup
    split at hlookup
    · next hk =>
      refine ⟨handleId, List.mem_append_right _ (List.mem_singleton.mpr rfl), ?_⟩
      rw [hfate, beq_iff_eq.mp hk]
    · exact hmade.known k' contactId' hlookup

theorem Meets.mono {p : Place SiblingKey} {place : Place Int}
    (hkept : ∀ k contactId, made.lookup k = some contactId → made'.lookup k = some contactId)
    (h : Meets made p place) : Meets made' p place := by
  cases p with
  | gone => exact h
  | off => exact h
  | on k =>
    obtain ⟨contactId, hlookup, hplace⟩ := h
    exact ⟨contactId, hkept k contactId hlookup, hplace⟩

/-- A step on an identity there is: what it owes is the place it gives, and the contacts. -/
theorem Settled.moved {place : Place Int} (h : Settled accountId db s start book made done)
    (hhere : book.placeOf accountId handleId ≠ .gone)
    (hmoves : Puts accountId db s handleId place book book')
    (hkept : ∀ k contactId, made.lookup k = some contactId → made'.lookup k = some contactId)
    (hplace : Meets made' (fate accountId db s start handleId) place)
    (hmade : Made accountId db s start book' made' (done ++ [handleId])) :
    Settled accountId db s start book' made' (done ++ [handleId]) := by
  have hstill : ∀ x, book'.placeOf accountId x ≠ .gone → book.placeOf accountId x ≠ .gone ∧
      (x ≠ handleId ∨ place ≠ .gone) := by
    intro x hx
    rw [hmoves.placed] at hx
    by_cases hxh : x = handleId
    · subst hxh
      rw [if_pos rfl] at hx
      exact ⟨hhere, .inr hx⟩
    · rw [if_neg hxh] at hx
      exact ⟨hx, .inl hxh⟩
  refine ⟨fun x hx => ?_, fun x hx => ?_, fun x hx => ?_, fun x hx => ?_, fun x hx => ?_,
    fun c hc => hmoves.contacts c (h.grown c hc), hmade⟩
  · rw [hmoves.row x (hstill x hx).2, h.row x (hstill x hx).1]
  · rw [hmoves.use x (hstill x hx).2, h.use x (hstill x hx).1]
  · have hgone := h.absent x hx
    have hxh : x ≠ handleId := fun heq => hhere (heq ▸ hgone)
    rw [hmoves.placed, if_neg hxh, hgone]
  · rw [List.mem_append, List.mem_singleton, not_or] at hx
    rw [hmoves.placed, if_neg hx.2, h.rest x hx.1]
  · rw [hmoves.placed]
    by_cases hxh : x = handleId
    · rw [if_pos hxh, hxh]
      exact hplace
    · rw [if_neg hxh]
      rcases List.mem_append.mp hx with hx | hx
      · exact (h.met x hx).mono hkept
      · exact absurd (List.mem_singleton.mp hx) hxh

/-- A step on an identity that is gone. -/
theorem Settled.skipped (h : Settled accountId db s start book made done)
    (hgone : book.placeOf accountId handleId = .gone) :
    Settled accountId db s start book made (done ++ [handleId]) := by
  refine ⟨h.row, h.use, h.absent, fun x hx => ?_, fun x hx => ?_, h.grown,
    ⟨h.made.fresh, h.made.apart, fun k contactId hlookup => ?_⟩⟩
  · exact h.rest x (fun hmem => hx (List.mem_append_left _ hmem))
  · by_cases hdone : x ∈ done
    · exact h.met x hdone
    · obtain rfl : x = handleId := by simpa [hdone] using hx
      have hstart : start.handleOf accountId x = none := by
        rw [← placeOf_eq_gone, ← h.rest x hdone, hgone]
      rw [fate, hstart]
      exact hgone
  · obtain ⟨p, hp, hfate⟩ := h.made.known k contactId hlookup
    exact ⟨p, List.mem_append_left _ hp, hfate⟩

/-- **One identity of the list, when no sibling of a person before it is used otherwise.** -/
theorem Settled.takes (h : Settled accountId db s start book made done)
    (hpure : ∀ p ∈ done, ∀ k, fate accountId db s start p = .on k → ∀ r,
      start.handleOf accountId handleId = some r → r.siblingKey = k →
      fate accountId db s start handleId = .on k)
    (ht : Takes accountId db s handleId made book made' book') :
    Settled accountId db s start book' made' (done ++ [handleId]) := by
  have hpresent : ∀ {r}, book.handleOf accountId handleId = some r →
      book.placeOf accountId handleId ≠ .gone ∧
        start.handleOf accountId handleId = some r ∧
        identityUse accountId handleId db s book = identityUse accountId handleId db s start := by
    intro r hr
    have hhere : book.placeOf accountId handleId ≠ .gone := by
      rw [Ne, placeOf_eq_gone, hr]
      exact Option.some_ne_none r
    exact ⟨hhere, (h.row handleId hhere) ▸ hr, h.use handleId hhere⟩
  cases ht with
  | absent hrow => exact h.skipped (placeOf_eq_gone.mpr hrow)
  | sibling hrow hlookup hmoves =>
    obtain ⟨hhere, hstart, -⟩ := hpresent hrow
    obtain ⟨p, hp, hfate⟩ := h.made.known _ _ hlookup
    have hperson := hpure p hp _ hfate _ hstart rfl
    refine h.moved hhere hmoves (fun _ _ hl => hl) ?_ (h.made.moves hmoves)
    rw [hperson]
    exact ⟨_, hlookup, rfl⟩
  | person hrow hlookup huse hfresh hnew hmoves =>
    rename_i r contactId
    obtain ⟨hhere, hstart, hsame⟩ := hpresent hrow
    have hfate : fate accountId db s start handleId = .on r.siblingKey := by
      simp only [fate, hstart, ← hsame, huse]
    refine h.moved hhere hmoves (fun k c hl => ?_) ?_
      (h.made.cons h.grown hmoves hfresh hnew hfate)
    · have hk : (k == r.siblingKey) = false := by
        rw [beq_eq_false_iff_ne]
        rintro rfl
        rw [hlookup] at hl
        cases hl
      rw [List.lookup_cons, hk]
      exact hl
    · rw [hfate]
      exact ⟨contactId, by simp, rfl⟩
  | holder hrow _ huse hmoves =>
    obtain ⟨hhere, hstart, hsame⟩ := hpresent hrow
    refine h.moved hhere hmoves (fun _ _ hl => hl) ?_ (h.made.moves hmoves)
    simp only [fate, hstart, ← hsame, huse]
    rfl
  | nothing hrow _ huse hmoves =>
    obtain ⟨hhere, hstart, hsame⟩ := hpresent hrow
    refine h.moved hhere hmoves (fun _ _ hl => hl) ?_ (h.made.moves hmoves)
    simp only [fate, hstart, ← hsame, huse]
    rfl

/-- **The whole list, when no person's sibling in it is used otherwise.** -/
theorem settled_takeIdentitiesOff : ∀ {rest done : List Int} {made : NewContacts} {book : Book},
    Settled accountId db s start book made done →
    (∀ p ∈ done ++ rest, ∀ x ∈ rest, ∀ k, fate accountId db s start p = .on k → ∀ r,
      start.handleOf accountId x = some r → r.siblingKey = k →
      fate accountId db s start x = .on k) →
    ∃ book' made', takeIdentitiesOff accountId db s rest made book = some book' ∧
      Settled accountId db s start book' made' (done ++ rest)
  | [], done, made, book, h, _ => ⟨book, made, rfl, by rwa [List.append_nil]⟩
  | handleId :: rest, done, made, book, h, hpure => by
    obtain ⟨made₁, book₁, htakes, hrun⟩ := takeIdentitiesOff_cons db s handleId rest h.allMade
    have hone := h.takes (fun p hp => hpure p (List.mem_append_left _ hp) handleId
      List.mem_cons_self) htakes
    have happend : done ++ handleId :: rest = (done ++ [handleId]) ++ rest := by simp
    obtain ⟨book', made', hrest, hsettled⟩ := settled_takeIdentitiesOff hone (fun p hp x hx =>
      hpure p (happend ▸ hp) x (List.mem_cons_of_mem _ hx))
    exact ⟨book', made', hrun.trans hrest, happend ▸ hsettled⟩

/-- An identity on the contact made for its key stays there. -/
theorem stays_takeIdentitiesOff {x : Int} {r : HandleRow} : ∀ {rest : List Int}
    {made : NewContacts} {book : Book}, AllMade made book →
    book.handleOf accountId x = some r → made.lookup r.siblingKey = some contactId →
    book.placeOf accountId x = .on contactId →
    ∃ book', takeIdentitiesOff accountId db s rest made book = some book' ∧
      book'.placeOf accountId x = .on contactId
  | [], _, book, _, _, _, hplace => ⟨book, rfl, hplace⟩
  | handleId :: rest, made, book, hmade, hrow, hlookup, hplace => by
    obtain ⟨made₁, book₁, htakes, hrun⟩ := takeIdentitiesOff_cons db s handleId rest hmade
    have hmade₁ := hmade.takes htakes
    rw [hrun]
    have hstep : book₁.handleOf accountId x = some r ∧
        made₁.lookup r.siblingKey = some contactId ∧ book₁.placeOf accountId x = .on contactId := by
      have hother : ∀ {place : Place Int}, Puts accountId db s handleId place book book₁ →
          x ≠ handleId →
          book₁.handleOf accountId x = some r ∧ book₁.placeOf accountId x = .on contactId := by
        intro place hmoves hx
        refine ⟨(hmoves.row x (.inl hx)).trans hrow, ?_⟩
        rw [hmoves.placed, if_neg hx, hplace]
      by_cases hx : x = handleId
      · -- its key has a contact, so it is put there again
        subst hx
        cases htakes with
        | absent hnone => exact absurd (hnone.symm.trans hrow) (by simp)
        | sibling hrow' hlookup' hmoves =>
          cases hrow.symm.trans hrow'
          cases hlookup.symm.trans hlookup'
          refine ⟨(hmoves.row x (.inr (by simp))).trans hrow, hlookup, ?_⟩
          rw [hmoves.placed, if_pos rfl]
        | person hrow' hnone _ _ _ _ =>
          cases hrow.symm.trans hrow'
          exact absurd (hnone.symm.trans hlookup) (by simp)
        | holder hrow' hnone _ _ =>
          cases hrow.symm.trans hrow'
          exact absurd (hnone.symm.trans hlookup) (by simp)
        | nothing hrow' hnone _ _ =>
          cases hrow.symm.trans hrow'
          exact absurd (hnone.symm.trans hlookup) (by simp)
      · cases htakes with
        | absent _ => exact ⟨hrow, hlookup, hplace⟩
        | sibling _ _ hmoves => exact ⟨(hother hmoves hx).1, hlookup, (hother hmoves hx).2⟩
        | person _hrow hnone _huse _hfresh _hnew hmoves =>
          rename_i r' contactId'
          have hk : (r.siblingKey == r'.siblingKey) = false := by
            rw [beq_eq_false_iff_ne]
            intro heq
            rw [heq, hnone] at hlookup
            cases hlookup
          refine ⟨(hother hmoves hx).1, ?_, (hother hmoves hx).2⟩
          rw [List.lookup_cons, hk]
          exact hlookup
        | holder _ _ _ hmoves => exact ⟨(hother hmoves hx).1, hlookup, (hother hmoves hx).2⟩
        | nothing _ _ _ hmoves => exact ⟨(hother hmoves hx).1, hlookup, (hother hmoves hx).2⟩
    exact stays_takeIdentitiesOff hmade₁ hstep.1 hstep.2.1 hstep.2.2

end loop

/-! The whole call. -/

/-- A person in a conversation, and a sibling of it that no conversation uses as one. -/
def Mixed (accountId : Int) (db : Db) (s : Staging) (start : Book) (handleIds : List Int) : Prop :=
  ∃ p ∈ handleIds, ∃ x ∈ handleIds, ∃ rp rx, start.handleOf accountId p = some rp ∧
    start.handleOf accountId x = some rx ∧ rp.siblingKey = rx.siblingKey ∧
    identityUse accountId p db s start = .person ∧ identityUse accountId x db s start ≠ .person

/-- Each identity of the list is where its use says. -/
structure TakenOff (accountId : Int) (db : Db) (s : Staging) (start : Book)
    (handleIds : List Int) (book : Book) : Prop where
  /-- A person is on a contact with no name that was not there before. -/
  person : ∀ x ∈ handleIds, (start.handleOf accountId x).isSome = true →
    identityUse accountId x db s start = .person →
    ∃ contactId, book.placeOf accountId x = .on contactId ∧
      (∃ c ∈ book.contacts.rows, c.id = contactId ∧ c.accountId = accountId ∧
        c.preferredName = "") ∧
      ∀ c ∈ start.contacts.rows, c.id ≠ contactId
  holder : ∀ x ∈ handleIds, (start.handleOf accountId x).isSome = true →
    identityUse accountId x db s start = .holder → book.placeOf accountId x = .off
  nothing : ∀ x ∈ handleIds, identityUse accountId x db s start = .nothing →
    book.placeOf accountId x = .gone
  shared : ∀ x ∈ handleIds, ∀ y ∈ handleIds, ∀ rx ry, start.handleOf accountId x = some rx →
    start.handleOf accountId y = some ry → identityUse accountId x db s start = .person →
    identityUse accountId y db s start = .person →
    (book.placeOf accountId x = book.placeOf accountId y ↔ rx.siblingKey = ry.siblingKey)

/-- The identities are gone, off and together alike in both. -/
structure SameOutcome (accountId : Int) (handleIds : List Int) (book book' : Book) : Prop where
  gone : ∀ x ∈ handleIds,
    (book.placeOf accountId x = .gone ↔ book'.placeOf accountId x = .gone)
  off : ∀ x ∈ handleIds, (book.placeOf accountId x = .off ↔ book'.placeOf accountId x = .off)
  together : ∀ x ∈ handleIds, ∀ y ∈ handleIds,
    (book.placeOf accountId x = book.placeOf accountId y ↔
      book'.placeOf accountId x = book'.placeOf accountId y)

section call
variable {accountId : Int} {db : Db} {s : Staging} {start book book' : Book} {made : NewContacts}
  {handleIds : List Int}

theorem fate_eq_on {x : Int} {k : SiblingKey} : fate accountId db s start x = .on k ↔
    ∃ r, start.handleOf accountId x = some r ∧ r.siblingKey = k ∧
      identityUse accountId x db s start = .person := by
  unfold fate
  cases hrow : start.handleOf accountId x with
  | none => simp
  | some r => cases huse : identityUse accountId x db s start <;> simp

/-- What has been taken off is a matter of which identities, not of their order. -/
theorem Settled.of_mem_iff {done : List Int} (h : Settled accountId db s start book made done)
    (hmem : ∀ x, x ∈ done ↔ x ∈ handleIds) :
    Settled accountId db s start book made handleIds := by
  refine ⟨h.row, h.use, h.absent, fun x hx => h.rest x (fun hd => hx ((hmem x).mp hd)),
    fun x hx => h.met x ((hmem x).mpr hx), h.grown, h.made.fresh, h.made.apart, fun k c hl => ?_⟩
  obtain ⟨p, hp, hfate⟩ := h.made.known k c hl
  exact ⟨p, (hmem p).mp hp, hfate⟩

/-- Places are the same when the fates are. -/
theorem Settled.same_iff (h : Settled accountId db s start book made handleIds) {x y : Int}
    (hx : x ∈ handleIds) (hy : y ∈ handleIds) :
    book.placeOf accountId x = book.placeOf accountId y ↔
      fate accountId db s start x = fate accountId db s start y := by
  have hmx := h.met x hx
  have hmy := h.met y hy
  generalize fate accountId db s start x = fx at hmx ⊢
  generalize fate accountId db s start y = fy at hmy ⊢
  generalize book.placeOf accountId x = px at hmx ⊢
  generalize book.placeOf accountId y = py at hmy ⊢
  cases fx with
  | gone =>
    obtain rfl : px = .gone := hmx
    cases fy with
    | gone => exact iff_of_true (Eq.symm hmy) rfl
    | off => obtain rfl : py = .off := hmy; simp
    | on k => obtain ⟨c, -, rfl⟩ := hmy; simp
  | off =>
    obtain rfl : px = .off := hmx
    cases fy with
    | gone => obtain rfl : py = .gone := hmy; simp
    | off => exact iff_of_true (Eq.symm hmy) rfl
    | on k => obtain ⟨c, -, rfl⟩ := hmy; simp
  | on k =>
    obtain ⟨c, hlookup, rfl⟩ := hmx
    cases fy with
    | gone => obtain rfl : py = .gone := hmy; simp
    | off => obtain rfl : py = .off := hmy; simp
    | on k' =>
      obtain ⟨c', hlookup', rfl⟩ := hmy
      rw [Place.on.injEq, Place.on.injEq]
      constructor
      · rintro rfl
        exact h.made.apart k k' c hlookup hlookup'
      · rintro rfl
        exact Option.some.inj (hlookup.symm.trans hlookup')

/-- An identity is gone, or off, when that is its fate. -/
theorem Settled.gone_iff (h : Settled accountId db s start book made handleIds) {x : Int}
    (hx : x ∈ handleIds) :
    (book.placeOf accountId x = .gone ↔ fate accountId db s start x = .gone) ∧
      (book.placeOf accountId x = .off ↔ fate accountId db s start x = .off) := by
  have hmx := h.met x hx
  generalize fate accountId db s start x = fx at hmx ⊢
  generalize book.placeOf accountId x = px at hmx ⊢
  cases fx with
  | gone => obtain rfl : px = .gone := hmx; simp
  | off => obtain rfl : px = .off := hmx; simp
  | on k => obtain ⟨c, -, rfl⟩ := hmx; simp

theorem Settled.takenOff (h : Settled accountId db s start book made handleIds) :
    TakenOff accountId db s start handleIds book where
  person x hx hsome huse := by
    obtain ⟨r, hr⟩ := Option.isSome_iff_exists.mp hsome
    have hmx := h.met x hx
    rw [fate_eq_on.mpr ⟨r, hr, rfl, huse⟩] at hmx
    obtain ⟨contactId, hlookup, hplace⟩ := hmx
    obtain ⟨hnew, hfresh⟩ := h.made.fresh _ _ hlookup
    exact ⟨contactId, hplace, ⟨_, hnew, rfl, rfl, rfl⟩, hfresh⟩
  holder x hx hsome huse := by
    obtain ⟨r, hr⟩ := Option.isSome_iff_exists.mp hsome
    exact (h.gone_iff hx).2.mpr (by simp only [fate, hr, huse])
  nothing x hx huse := by
    refine (h.gone_iff hx).1.mpr ?_
    unfold fate
    split
    · rfl
    · rw [huse]
  shared x hx y hy rx ry hrx hry hux huy := by
    rw [h.same_iff hx hy, fate_eq_on.mpr ⟨rx, hrx, rfl, hux⟩, fate_eq_on.mpr ⟨ry, hry, rfl, huy⟩,
      Place.on.injEq]

theorem not_mixed_pure (hpure : ¬ Mixed accountId db s start handleIds) :
    ∀ p ∈ handleIds, ∀ x ∈ handleIds, ∀ k, fate accountId db s start p = .on k → ∀ r,
      start.handleOf accountId x = some r → r.siblingKey = k →
      fate accountId db s start x = .on k := by
  intro p hp x hx k hfate r hr hk
  obtain ⟨rp, hrp, hkp, hup⟩ := fate_eq_on.mp hfate
  refine fate_eq_on.mpr ⟨r, hr, hk, ?_⟩
  by_contra hux
  exact hpure ⟨p, hp, x, hx, rp, r, hrp, hr, hkp.trans hk.symm, hup, hux⟩

/-- After the person, its sibling goes to the person's new contact and stays there. -/
theorem sibling_follows {p x : Int} {rp rx : HandleRow} (rest : List Int)
    (hrp : start.handleOf accountId p = some rp) (hrx : start.handleOf accountId x = some rx)
    (hk : rp.siblingKey = rx.siblingKey)
    (hup : identityUse accountId p db s start = .person)
    (hux : identityUse accountId x db s start ≠ .person) :
    ∃ book' contactId,
      takeIdentitiesOff accountId db s (p :: x :: rest) [] start = some book' ∧
      book'.placeOf accountId x = .on contactId := by
  have hxp : x ≠ p := by
    rintro rfl
    exact hux hup
  obtain ⟨made₁, book₁, htakes, hrun⟩ :=
    takeIdentitiesOff_cons db s p (x :: rest) (Settled.initial accountId db s start).allMade
  have hmade₁ := (Settled.initial accountId db s start).allMade.takes htakes
  obtain ⟨contactId, hlookup, hrow₁⟩ : ∃ contactId, made₁.lookup rx.siblingKey = some contactId ∧
      book₁.handleOf accountId x = some rx := by
    cases htakes with
    | absent hnone => exact absurd (hnone.symm.trans hrp) (by simp)
    | sibling _ hnil _ => cases hnil
    | person hrow hnil huse hfresh hnew hmoves =>
      cases hrow.symm.trans hrp
      exact ⟨_, by rw [← hk, List.lookup_cons, beq_self_eq_true], (hmoves.row x (.inl hxp)).trans hrx⟩
    | holder _ _ huse _ => exact absurd (huse.symm.trans hup) (by simp)
    | nothing _ _ huse _ => exact absurd (huse.symm.trans hup) (by simp)
  obtain ⟨made₂, book₂, htakes₂, hrun₂⟩ := takeIdentitiesOff_cons db s x rest hmade₁
  have hmade₂ := hmade₁.takes htakes₂
  obtain ⟨hrow₂, hlookup₂, hplace₂⟩ : book₂.handleOf accountId x = some rx ∧
      made₂.lookup rx.siblingKey = some contactId ∧ book₂.placeOf accountId x = .on contactId := by
    cases htakes₂ with
    | absent hnone => exact absurd (hnone.symm.trans hrow₁) (by simp)
    | sibling hrow hsame hmoves =>
      cases hrow.symm.trans hrow₁
      cases hsame.symm.trans hlookup
      refine ⟨(hmoves.row x (.inr (by simp))).trans hrow₁, hlookup, ?_⟩
      rw [hmoves.placed, if_pos rfl]
    | person hrow hnone _ _ _ _ =>
      cases hrow.symm.trans hrow₁
      exact absurd (hnone.symm.trans hlookup) (by simp)
    | holder hrow hnone _ _ =>
      cases hrow.symm.trans hrow₁
      exact absurd (hnone.symm.trans hlookup) (by simp)
    | nothing hrow hnone _ _ =>
      cases hrow.symm.trans hrow₁
      exact absurd (hnone.symm.trans hlookup) (by simp)
  obtain ⟨book', hrest, hplace⟩ := stays_takeIdentitiesOff hmade₂ hrow₂ hlookup₂ hplace₂
  exact ⟨book', contactId, hrun.trans (hrun₂.trans hrest), hplace⟩

/-- **Every identity of the list goes where its use says, in every order of the list alike,
exactly when no person's sibling in it is used otherwise.** -/
theorem takes_off_iff (accountId : Int) (db : Db) (s : Staging) (start : Book)
    (handleIds : List Int) :
    ((∀ ids, ids.Perm handleIds → ∃ book, takeIdentitiesOff accountId db s ids [] start = some book ∧
        TakenOff accountId db s start handleIds book) ∧
      ∀ ids ids' book book', ids.Perm handleIds → ids'.Perm handleIds →
        takeIdentitiesOff accountId db s ids [] start = some book →
        takeIdentitiesOff accountId db s ids' [] start = some book' →
        SameOutcome accountId handleIds book book') ↔
    ¬ Mixed accountId db s start handleIds := by
  constructor
  · rintro ⟨hplaced, -⟩ ⟨p, hp, x, hx, rp, rx, hrp, hrx, hk, hup, hux⟩
    have hxp : x ≠ p := by
      rintro rfl
      exact hux hup
    -- the order with the person first and its sibling next
    have hperm : (p :: x :: (handleIds.erase p).erase x).Perm handleIds := by
      have hx' : x ∈ handleIds.erase p := (List.mem_erase_of_ne hxp).mpr hx
      exact ((List.perm_cons_erase hx').cons p).symm.trans (List.perm_cons_erase hp).symm
    obtain ⟨book, hbook, htaken⟩ := hplaced _ hperm
    obtain ⟨book', contactId, hbook', hplace⟩ := sibling_follows _ hrp hrx hk hup hux
    cases hbook.symm.trans hbook'
    cases huse : identityUse accountId x db s start with
    | person => exact hux huse
    | holder =>
      have hoff := htaken.holder x hx (by rw [hrx]; rfl) huse
      exact absurd (hoff.symm.trans hplace) (by simp)
    | nothing =>
      have hgone := htaken.nothing x hx huse
      exact absurd (hgone.symm.trans hplace) (by simp)
  · intro hpure
    have hrun : ∀ ids, ids.Perm handleIds → ∃ book made,
        takeIdentitiesOff accountId db s ids [] start = some book ∧
        Settled accountId db s start book made handleIds := by
      intro ids hperm
      obtain ⟨book, made, hbook, hsettled⟩ := settled_takeIdentitiesOff
        (Settled.initial accountId db s start) (fun p hp x hx =>
          not_mixed_pure hpure p (hperm.mem_iff.mp hp) x (hperm.mem_iff.mp hx))
      exact ⟨book, made, hbook, hsettled.of_mem_iff (fun x => hperm.mem_iff)⟩
    refine ⟨fun ids hperm => ?_, fun ids ids' book book' hperm hperm' hbook hbook' => ?_⟩
    · obtain ⟨book, made, hbook, hsettled⟩ := hrun ids hperm
      exact ⟨book, hbook, hsettled.takenOff⟩
    · obtain ⟨_, _, hsame, h⟩ := hrun ids hperm
      obtain ⟨_, _, hsame', h'⟩ := hrun ids' hperm'
      cases hsame.symm.trans hbook
      cases hsame'.symm.trans hbook'
      exact ⟨fun x hx => (h.gone_iff hx).1.trans (h'.gone_iff hx).1.symm,
        fun x hx => (h.gone_iff hx).2.trans (h'.gone_iff hx).2.symm,
        fun x hx y hy => (h.same_iff hx hy).trans (h'.same_iff hx hy).symm⟩

end call

/-! One number on two services: the first identity is a one-to-one conversation's, the second
nobody's. -/

def twoServices : Book where
  handles := ⟨[⟨1, 1, "+15550001", "+15550001", none, .phone, .phone⟩,
    ⟨2, 1, "+15550001", "+15550001", none, .phone, .whatsapp⟩], by decide, by decide⟩
  contacts := Table.empty
  contactHandles := Table.empty
  trashedContacts := []
  accountHandles := []

def oneConversation : Db :=
  { Db.empty with
    conversations := ⟨[⟨1, 1, 1, "individual", none, none, "chat.vcrate"⟩], by decide, by decide⟩ }

def nothingStaged : Staging :=
  ⟨Table.empty, Table.empty, Table.empty, Table.empty, Table.empty⟩

/-- Listed second, the identity nothing uses is put on the first one's new contact; listed
first, it is gone. -/
theorem take_off_keeps_unused :
    identityUse 1 2 oneConversation nothingStaged twoServices = .nothing ∧
    (∃ book, takeIdentitiesOff 1 oneConversation nothingStaged [1, 2] [] twoServices = some book ∧
      book.placeOf 1 2 = .on 1) ∧
    (∃ book, takeIdentitiesOff 1 oneConversation nothingStaged [2, 1] [] twoServices = some book ∧
      book.placeOf 1 2 = .gone) ∧
    ¬ ∃ book, takeIdentitiesOff 1 oneConversation nothingStaged [1, 2] [] twoServices = some book ∧
      TakenOff 1 oneConversation nothingStaged twoServices [1, 2] book := by
  have huse : identityUse 1 2 oneConversation nothingStaged twoServices = .nothing := by
    decide +kernel
  have hfirst : ((takeIdentitiesOff 1 oneConversation nothingStaged [1, 2] [] twoServices).map
      (fun book => book.placeOf 1 2)) = some (.on 1) := by
    decide +kernel
  have hsecond : ((takeIdentitiesOff 1 oneConversation nothingStaged [2, 1] [] twoServices).map
      (fun book => book.placeOf 1 2)) = some .gone := by
    decide +kernel
  rw [Option.map_eq_some_iff] at hfirst hsecond
  refine ⟨huse, hfirst, hsecond, ?_⟩
  rintro ⟨book, hbook, htaken⟩
  obtain ⟨book', hbook', hon⟩ := hfirst
  cases hbook.symm.trans hbook'
  exact absurd ((htaken.nothing 2 (by decide) huse).symm.trans hon) (by decide)

end MessageCrate

import MessageCrate.Import.StagedOrder

/- One address in a conversation, one identity.

   A chat's id, a participant, a message's sender and a tapback's sender each ask for the handle
   of an address. The header's types are given to the first three; a tapback's sender is typed by
   the shape of its address.

   What is proved:
     1. `Later.run`: an import never forgets an id it was given, and with no contact in the trash
        no row behind one goes.
     2. `chat_asked`, `participant_asked`, `message_asked`, `tapback_asked`: the identity that each
        asks for.
     3. `sameHandle_stageMoves`: so an address has a participant's handle where it is given the
        participant's type. -/
namespace MessageCrate
open Text Grouping SqlTable Table

/-! Handles. -/

section
variable {toLowercase : String → String} {accountId : Int} {raw : String} {handleType : HandleType}
  {service : Option String}

theorem handleKey_trim : handleKey toLowercase (trim raw) handleType service =
    handleKey toLowercase raw handleType service := by
  unfold handleKey
  rw [normalizeTypedHandle_trim]

/-- Addresses that are one but for the ends ask for one identity when their types are one. -/
theorem handleKey_eq_iff {raw' : String} {handleType' : HandleType} (h : trim raw = trim raw') :
    handleKey toLowercase raw handleType service = handleKey toLowercase raw' handleType' service ↔
      handleType = handleType' := by
  constructor
  · exact fun hkey => congrArg HandleKey.handleType hkey
  · rintro rfl
    rw [← handleKey_trim, h, handleKey_trim]

/-- The identities grow, and the trash stays as it is. -/
structure Book.Grows (book book' : Book) : Prop where
  trashed : book'.trashedContacts = book.trashedContacts
  handles : ∀ row ∈ book.handles.rows, row ∈ book'.handles.rows

theorem Book.Grows.refl (book : Book) : book.Grows book := ⟨rfl, fun _ hrow => hrow⟩

theorem Book.Grows.trans {book book₁ book' : Book} (h : book.Grows book₁) (h' : book₁.Grows book') :
    book.Grows book' :=
  ⟨h'.trashed.trans h.trashed, fun row hrow => h'.handles row (h.handles row hrow)⟩

theorem upsertHandleRow_grows {book book' : Book} {id : Int} {flagged : Bool}
    (h : upsertHandleRow toLowercase accountId raw handleType service book = some (book', id, flagged)) :
    book.Grows book' ∧ ∃ row ∈ book'.handles.rows, row.accountId = accountId ∧
      row.handleKey = handleKey toLowercase raw handleType service ∧ row.id = id := by
  obtain ⟨row, hfind, hdone⟩ := Option.bind_eq_some_iff.mp h
  cases hdone
  obtain ⟨hmem, hkey⟩ := find?_eq_some.mp hfind
  have hkey : some (row.accountId, row.handleKey) = some (accountId, _) := hkey
  rw [Option.some.injEq, Prod.mk.injEq] at hkey
  exact ⟨⟨rfl, subset_insertOrIgnore _ _⟩, row, hmem, hkey.1, hkey.2, rfl⟩

/-- A cached id is used again, and a new one is cached. -/
theorem upsertHandleRowCached_cases {cache cache' : HandleIdCache} {book book' : Book} {id : Int}
    {flagged cached : Bool}
    (h : upsertHandleRowCached toLowercase accountId raw handleType service cache book =
      some (book', cache', id, flagged, cached)) :
    (book' = book ∧ cache' = cache ∧
        cache.lookup (handleKey toLowercase raw handleType service) = some id) ∨
      cache.lookup (handleKey toLowercase raw handleType service) = none ∧
        cache' = (handleKey toLowercase raw handleType service, id) :: cache ∧
        ∃ flagged, upsertHandleRow toLowercase accountId raw handleType service book =
          some (book', id, flagged) := by
  unfold upsertHandleRowCached at h
  split at h
  · next hlookup =>
    cases h
    exact .inl ⟨rfl, rfl, hlookup⟩
  · next hlookup =>
    obtain ⟨⟨book₁, id₁, flagged₁⟩, hrow, hdone⟩ := Option.bind_eq_some_iff.mp h
    cases hdone
    exact .inr ⟨hlookup, rfl, _, hrow⟩

end

/-! Contacts, with none in the trash. -/

section
variable {ctx : ImportContext} {book book' : Book}

theorem proposeName_grows (accountId contactId : Int) (name : String) (origin : Origin) (book : Book) :
    book.Grows (book.proposeName accountId contactId name origin) := by
  unfold Book.proposeName
  simp only
  split
  · exact Book.Grows.refl book
  · exact ⟨rfl, fun _ hrow => hrow⟩

theorem putOnContact_grows {accountId handleId contactId : Int} {origin : Origin}
    (h : book.putOnContact accountId handleId contactId origin = some book') : book.Grows book' := by
  unfold Book.putOnContact at h
  split at h
  · cases h
    exact ⟨rfl, fun _ hrow => hrow⟩
  · cases h

theorem linkHandleToContact_grows {accountId handleId contactId : Int} {origin : Origin} {made : Bool}
    (h : book.linkHandleToContact accountId handleId contactId origin = some (book', made)) :
    book.Grows book' := by
  unfold Book.linkHandleToContact at h
  simp only at h
  split at h
  · cases h
    exact Book.Grows.refl book
  · split at h
    · cases h
      exact ⟨rfl, fun _ hrow => hrow⟩
    · cases h

theorem ensureSiblingContactLink_grows {handleId : Int} {found : Option Int}
    (h : ensureSiblingContactLink ctx handleId book = some (book', found)) : book.Grows book' := by
  unfold ensureSiblingContactLink at h
  split at h
  · cases h
    exact Book.Grows.refl book
  · split at h
    · cases h
      exact Book.Grows.refl book
    · obtain ⟨⟨book₁, made⟩, hlink, hdone⟩ := Option.bind_eq_some_iff.mp h
      cases hdone
      exact linkHandleToContact_grows hlink

theorem moveToFreshContact_grows {s : Staging} {handleId : Int} {name : String}
    (h : moveToFreshContact ctx s handleId name none book = some book') : book.Grows book' := by
  unfold moveToFreshContact at h
  obtain ⟨⟨book₁, moved⟩, hmove, hdone⟩ := Option.bind_eq_some_iff.mp h
  cases hdone
  obtain ⟨book₂, hput, hmoved⟩ := Option.bind_eq_some_iff.mp hmove
  cases hmoved
  have hfresh : book.Grows (book.createContact ctx.accountId name .imported).1 :=
    ⟨rfl, fun _ hrow => hrow⟩
  exact hfresh.trans (putOnContact_grows hput)

theorem ensureContactForHandle_grows {s : Staging} {handleId : Int} {backupName : Option String}
    (huntrashed : ∀ q ∈ book.trashedContacts, q.1 ≠ ctx.accountId)
    (h : ensureContactForHandle ctx s handleId backupName book = some book') : book.Grows book' := by
  unfold ensureContactForHandle at h
  obtain ⟨⟨book₁, found⟩, hlink, hrest⟩ := Option.bind_eq_some_iff.mp h
  have hgrows := ensureSiblingContactLink_grows hlink
  simp only at hrest
  split at hrest
  · next existing =>
    split at hrest
    · next htrashed =>
      have hmem : (ctx.accountId, existing) ∈ book₁.trashedContacts := List.contains_iff_mem.mp htrashed
      rw [hgrows.trashed] at hmem
      exact absurd rfl (huntrashed _ hmem)
    · cases hrest
      exact hgrows.trans (proposeName_grows _ _ _ _ _)
  · exact hgrows.trans (moveToFreshContact_grows hrest)

end

/-! An import's ids. -/

namespace Stage
variable {ctx : ImportContext} {st st' : Stage}

/-- No contact of the account is in the trash, and behind each id of the cache is its row. -/
structure Rooted (ctx : ImportContext) (st : Stage) : Prop where
  untrashed : ∀ q ∈ st.book.trashedContacts, q.1 ≠ ctx.accountId
  rows : ∀ key id, st.handles.lookup key = some id → ∃ row ∈ st.book.handles.rows,
    row.accountId = ctx.accountId ∧ row.handleKey = key ∧ row.id = id

/-- One identity for each id. -/
theorem Rooted.key_eq (h : Rooted ctx st) {key key' : HandleKey} {id : Int}
    (hkey : st.handles.lookup key = some id) (hkey' : st.handles.lookup key' = some id) :
    key = key' := by
  obtain ⟨row, hrow, -, rfl, hid⟩ := h.rows key id hkey
  obtain ⟨row', hrow', -, rfl, hid'⟩ := h.rows key' id hkey'
  rw [Table.eq_of_id_eq hrow hrow' (Eq.trans hid hid'.symm)]

theorem Rooted.grows {book' : Book} (h : Rooted ctx st) (hgrows : st.book.Grows book') :
    Rooted ctx { st with book := book' } where
  untrashed q hq := h.untrashed q (hgrows.trashed ▸ hq)
  rows key id hkey := by
    obtain ⟨row, hrow, hrest⟩ := h.rows key id hkey
    exact ⟨row, hgrows.handles row hrow, hrest⟩

/-- The state is later in the import: no id is forgotten, and no row behind one is gone. -/
structure Later (ctx : ImportContext) (st st' : Stage) : Prop where
  ids : ∀ key id, st.handles.lookup key = some id → st'.handles.lookup key = some id
  rooted : Rooted ctx st → Rooted ctx st'

theorem Later.refl (st : Stage) : Later ctx st st := ⟨fun _ _ h => h, fun h => h⟩

theorem Later.trans {st₁ : Stage} (h : Later ctx st st₁) (h' : Later ctx st₁ st') :
    Later ctx st st' :=
  ⟨fun key id hkey => h'.ids key id (h.ids key id hkey), fun hroot => h'.rooted (h.rooted hroot)⟩

/-- What else a state holds does not matter. -/
theorem Later.congr {st'' : Stage} (h : Later ctx st st') (hbook : st''.book = st'.book)
    (hhandles : st''.handles = st'.handles) : Later ctx st st'' where
  ids key id hkey := hhandles ▸ h.ids key id hkey
  rooted hroot :=
    ⟨fun q hq => (h.rooted hroot).untrashed q (hbook ▸ hq), fun key id hkey =>
      hbook ▸ (h.rooted hroot).rows key id (hhandles ▸ hkey)⟩

theorem later_resolve {raw : String} {handleType : HandleType} {service : String} {id : Int}
    {cached : Bool} (h : st.resolve ctx raw handleType service = some (st', id, cached)) :
    Later ctx st st' ∧
      st'.handles.lookup (handleKey ctx.toLowercase raw handleType (some service)) = some id := by
  unfold resolve at h
  obtain ⟨⟨book, handles, id', flagged, cached'⟩, hcached, hdone⟩ := Option.bind_eq_some_iff.mp h
  cases hdone
  obtain ⟨rfl, rfl, hlookup⟩ | ⟨hnone, rfl, flagged, hrow⟩ := upsertHandleRowCached_cases hcached
  · exact ⟨(Later.refl st).congr rfl rfl, hlookup⟩
  · obtain ⟨hgrows, row, hmem, hacc, hkey, hid⟩ := upsertHandleRow_grows hrow
    refine ⟨⟨fun key id' hlookup => ?_, fun hroot => ⟨(hroot.grows hgrows).untrashed, ?_⟩⟩,
      List.lookup_cons_self⟩
    · rw [List.lookup_cons]
      split
      · next heq =>
        rw [beq_iff_eq.mp heq, hnone] at hlookup
        cases hlookup
      · exact hlookup
    · intro key id' hlookup
      rw [List.lookup_cons] at hlookup
      split at hlookup
      · next heq =>
        cases hlookup
        exact ⟨row, hmem, hacc, hkey.trans (beq_iff_eq.mp heq).symm, hid⟩
      · exact (hroot.grows hgrows).rows key id' hlookup

theorem later_ensureContact {handleId : Int} {backupName : Option String}
    (h : st.ensureContact ctx handleId backupName = some st') : Later ctx st st' := by
  unfold ensureContact at h
  obtain ⟨book, hbook, hdone⟩ := Option.bind_eq_some_iff.mp h
  cases hdone
  exact ⟨fun _ _ hkey => hkey, fun hroot =>
    hroot.grows (ensureContactForHandle_grows hroot.untrashed hbook)⟩

/-- What a sender asks for: nothing when it is the holder or blank. -/
theorem later_resolveSender {isFromMe : Bool} {address : Option String}
    {handleType : Option HandleType} {platform : String} {id : Option Int}
    (h : st.resolveSender ctx isFromMe address handleType platform = some (st', id)) :
    Later ctx st st' ∧ ∀ a, isFromMe = false → address = some a →
      (trim a = "" → id = none) ∧ (trim a ≠ "" → ∃ i, id = some i ∧
        st'.handles.lookup (handleKey ctx.toLowercase a
          (handleType.getD (inferHandleTypeFromShape (trim a))) (some platform)) = some i) := by
  unfold resolveSender at h
  split at h
  · next hme =>
    cases h
    refine ⟨Later.refl st, fun a hnot => ?_⟩
    rw [hnot] at hme
    cases hme
  · split at h
    · next hblank =>
      cases h
      refine ⟨Later.refl st, fun a _ ha => ⟨fun _ => rfl, fun hne => ?_⟩⟩
      rw [ha, Option.bind_some, trimmed, if_neg hne] at hblank
      cases hblank
    · next address' haddress =>
      obtain ⟨⟨st₁, handleId, cached⟩, hres, hrest⟩ := Option.bind_eq_some_iff.mp h
      obtain ⟨hlater, hlookup⟩ := later_resolve hres
      have hasked : ∀ a, address = some a → trim a ≠ "" ∧ address' = trim a := by
        intro a ha
        rw [ha, Option.bind_some, trimmed] at haddress
        split at haddress
        · cases haddress
        · next hne => exact ⟨hne, (Option.some.inj haddress).symm⟩
      have hdone : ∀ {st₂ : Stage}, Later ctx st₁ st₂ → Later ctx st st₂ ∧
          ∀ a, isFromMe = false → address = some a →
            (trim a = "" → some handleId = none) ∧ (trim a ≠ "" → ∃ i, some handleId = some i ∧
              st₂.handles.lookup (handleKey ctx.toLowercase a
                (handleType.getD (inferHandleTypeFromShape (trim a))) (some platform)) = some i) := by
        refine fun hlater' => ⟨hlater.trans hlater', fun a _ ha => ?_⟩
        obtain ⟨hne, rfl⟩ := hasked a ha
        refine ⟨fun hblank => absurd hblank hne, fun _ => ⟨handleId, rfl, hlater'.ids _ _ ?_⟩⟩
        rw [handleKey_trim] at hlookup
        exact hlookup
      simp only at hrest
      split at hrest
      · obtain ⟨st₂, hcontact, hend⟩ := Option.bind_eq_some_iff.mp hrest
        cases hend
        exact hdone (later_ensureContact hcontact)
      · cases hrest
        exact hdone (Later.refl _)

theorem later_resolveOwner {address : Option String} {platform : String} {id : Option Int}
    (h : st.resolveOwner ctx address platform = some (st', id)) : Later ctx st st' := by
  unfold resolveOwner at h
  split at h
  · cases h
    exact Later.refl st
  · split at h
    · cases h
      exact Later.refl st
    · obtain ⟨⟨book, handleId, flagged⟩, hrow, hdone⟩ := Option.bind_eq_some_iff.mp h
      cases hdone
      have hlater : Later ctx st { st with book := book } :=
        ⟨fun _ _ hkey => hkey, fun hroot => hroot.grows (upsertHandleRow_grows hrow).1⟩
      exact hlater.congr rfl rfl

/-! What the moves write. -/

/-- The platform of a message's sender. -/
def senderPlatformOf (cur : Current) (msg : MessageRecord) : HandleService :=
  match msg.service with
  | some service => HandleService.parse service
  | none => cur.platform

/-- The handle in the row that a move makes; `none` when it makes none. A participant's is the one
it asked for, which its conversation may have already. -/
def writes (ctx : ImportContext) (move : Move) (st : Stage) : Option (Option Int) := do
  let st' ← st.step ctx move
  match move with
  | .conversation _ _ =>
    let current ← st'.current
    let row ← st'.staging.conversations.rows.find? (fun c => c.id = current.conversationId)
    return some row.chatHandleId
  | .participant _ =>
    let asked ← (st'.resolved.take (st'.resolved.length - st.resolved.length)).head?
    return some asked.2
  | .message _ => st'.pending.getLast?.map PendingStagingMessage.senderHandleId
  | .tapback _ _ =>
    (st'.taps.drop st.taps.length).head?.map (fun new => (new.row 0).senderHandleId)
  | .rows _ | .insertTapbacks => none

/-- Each move of a run, with the handle in the row it made. -/
def trace (ctx : ImportContext) : List Move → Stage → List (Move × Option (Option Int))
  | [], _ => []
  | move :: moves, st =>
    (move, st.writes ctx move) ::
      (match st.step ctx move with
        | some st' => trace ctx moves st'
        | none => [])

theorem mem_trace {moves : List Move} {move : Move} {o : Option (Option Int)}
    (h : st.run ctx moves = some st') (hmem : (move, o) ∈ trace ctx moves st) :
    ∃ before after s s', moves = before ++ move :: after ∧ st.run ctx before = some s ∧
      s.step ctx move = some s' ∧ s'.run ctx after = some st' ∧ o = s.writes ctx move := by
  induction moves generalizing st with
  | nil => cases hmem
  | cons move' moves ih =>
    obtain ⟨st₁, hone, hrest⟩ := Option.bind_eq_some_iff.mp h
    have htrace : trace ctx (move' :: moves) st =
        (move', st.writes ctx move') :: trace ctx moves st₁ := by
      have hstep : st.step ctx move' = some st₁ := hone
      simp only [trace, hstep]
    rw [htrace] at hmem
    obtain hmem | hmem := List.mem_cons.mp hmem
    · cases hmem
      exact ⟨[], moves, st, st₁, rfl, rfl, hone, hrest, rfl⟩
    · obtain ⟨before, after, s, s', rfl, hbefore, hstep, hafter, ho⟩ := ih hrest hmem
      refine ⟨move' :: before, after, s, s', rfl, ?_, hstep, hafter, ho⟩
      exact Option.bind_eq_some_iff.mpr ⟨st₁, hone, hbefore⟩

/-- A header asks for its chat's identity. -/
theorem chat_asked {sourceFile : String} {c : StagedConversation}
    (h : st.conversation ctx sourceFile c = some st') : Later ctx st st' ∧
      ∃ id, st.writes ctx (.conversation sourceFile c) = some (some id) ∧
        st'.handles.lookup (handleKey ctx.toLowercase c.chatIdentifier c.chatHandleType
          (some c.platform.asStr)) = some id ∧
        (∃ cur, st'.current = some cur ∧ cur.platform = c.platform ∧
          cur.headerTypes = headerHandleTypes c.participants) ∧
        st'.pending = [] ∧ st'.inserted = [] := by
  have hstep : st.step ctx (.conversation sourceFile c) = some st' := h
  unfold conversation at h
  obtain ⟨⟨st₁, chatHandleId, cached⟩, hres, hrest⟩ := Option.bind_eq_some_iff.mp h
  obtain ⟨hlater, hlookup⟩ := later_resolve hres
  obtain ⟨st₂, hlater₂, row, hrow, hdone⟩ : ∃ st₂, Later ctx st₁ st₂ ∧ ∃ row,
      (st₂.staging.conversations.upsert (stagedConversation ctx.accountId chatHandleId sourceFile
        c)).find? (ctx.accountId, chatHandleId) = some row ∧ _ := by
    simp only at hrest
    split at hrest
    · obtain ⟨st₂, hcontact, hrest⟩ := Option.bind_eq_some_iff.mp hrest
      exact ⟨st₂, later_ensureContact hcontact, Option.bind_eq_some_iff.mp hrest⟩
    · exact ⟨st₁, Later.refl st₁, Option.bind_eq_some_iff.mp hrest⟩
  obtain ⟨hmem, hkey⟩ := find?_eq_some.mp hrow
  have hkey : some (row.accountId, row.chatHandleId) = some (ctx.accountId, chatHandleId) := hkey
  rw [Option.some.injEq, Prod.mk.injEq] at hkey
  cases hdone
  refine ⟨(hlater.trans hlater₂).congr rfl rfl, chatHandleId, ?_, hlater₂.ids _ _ hlookup,
    ⟨_, rfl, rfl, rfl⟩, rfl, rfl⟩
  obtain ⟨row', hfind⟩ : ∃ row', (st₂.staging.conversations.upsert (stagedConversation
      ctx.accountId chatHandleId sourceFile c)).rows.find? (fun c => c.id = row.id) = some row' := by
    apply Option.isSome_iff_exists.mp
    exact List.find?_isSome.mpr ⟨row, hmem, decide_eq_true rfl⟩
  have hid : row'.id = row.id := by simpa using List.find?_some hfind
  have hsame : row' = row := Table.eq_of_id_eq (List.mem_of_find?_eq_some hfind) hmem hid
  unfold writes
  rw [hstep, Option.bind_eq_bind, Option.bind_some]
  simp only [Option.bind_eq_bind, Option.bind_some, hfind, hsame, hkey.2]
  rfl

/-- A participant asks for its own, unless it is the account holder. -/
theorem participant_asked {p : StagedParticipant} {cur : Current} (hcur : st.current = some cur)
    (h : st.participant ctx p = some st') : Later ctx st st' ∧
      ∀ id, st.writes ctx (.participant p) = some (some id) →
        st'.handles.lookup (handleKey ctx.toLowercase p.handle
          (p.handleType.getD (inferHandleTypeFromShape p.handle)) (some cur.platform.asStr)) =
            some id := by
  have hstep : st.step ctx (.participant p) = some st' := h
  unfold participant at h
  obtain ⟨current, hcurrent, h⟩ := Option.bind_eq_some_iff.mp h
  obtain rfl : cur = current := Option.some.inj (hcur.symm.trans hcurrent)
  simp only at h
  split at h
  · cases h
    refine ⟨Later.refl st, fun id hid => ?_⟩
    unfold writes at hid
    rw [hstep, Option.bind_eq_bind, Option.bind_some] at hid
    simp only [Nat.sub_self, List.take_zero, List.head?_nil] at hid
    cases hid
  · obtain ⟨⟨st₁, handleId, cached⟩, hres, hrest⟩ := Option.bind_eq_some_iff.mp h
    obtain ⟨st₂, hcontact, hdone⟩ := Option.bind_eq_some_iff.mp hrest
    cases hdone
    obtain ⟨hlater, hlookup⟩ := later_resolve hres
    have hlater₂ := later_ensureContact hcontact
    refine ⟨(hlater.trans hlater₂).congr rfl rfl, fun id hid => ?_⟩
    have hresolved : ∃ key, st₂.resolved = (key, handleId) :: st.resolved := by
      unfold resolve at hres
      obtain ⟨r, -, hdone⟩ := Option.bind_eq_some_iff.mp hres
      cases hdone
      unfold ensureContact at hcontact
      obtain ⟨book, -, hdone⟩ := Option.bind_eq_some_iff.mp hcontact
      cases hdone
      exact ⟨_, rfl⟩
    obtain ⟨key, hresolved⟩ := hresolved
    unfold writes at hid
    rw [hstep, Option.bind_eq_bind, Option.bind_some] at hid
    simp only [hresolved, List.length_cons, Nat.add_sub_cancel_left, List.take_succ_cons,
      List.head?_cons, Option.bind_eq_bind, Option.bind_some] at hid
    cases hid
    exact hlater₂.ids _ _ hlookup

/-- A message asks for its sender's, with the type that the header or the message gives. -/
theorem message_asked {msg : MessageRecord} {cur : Current} (hcur : st.current = some cur)
    (h : st.message ctx msg = some st') : Later ctx st st' ∧
      ∃ o, st.writes ctx (.message msg) = some o ∧ ∀ a, msg.isFromMe = false → msg.sender = some a →
        (trim a = "" → o = none) ∧ (trim a ≠ "" → ∃ i, o = some i ∧
          st'.handles.lookup (handleKey ctx.toLowercase a
            ((senderType cur.headerTypes msg).getD (inferHandleTypeFromShape (trim a)))
              (some (senderPlatformOf cur msg).asStr)) = some i) := by
  have hstep : st.step ctx (.message msg) = some st' := h
  unfold message at h
  obtain ⟨current, hcurrent, h⟩ := Option.bind_eq_some_iff.mp h
  obtain rfl : cur = current := Option.some.inj (hcur.symm.trans hcurrent)
  obtain ⟨⟨st₁, sender⟩, hsender, hrest⟩ := Option.bind_eq_some_iff.mp h
  obtain ⟨⟨st₂, owner⟩, howner, hdone⟩ := Option.bind_eq_some_iff.mp hrest
  cases hdone
  obtain ⟨hlater, hasked⟩ := later_resolveSender hsender
  have hlater₂ := later_resolveOwner howner
  refine ⟨(hlater.trans hlater₂).congr rfl rfl, sender, ?_, fun a hme ha => ?_⟩
  · unfold writes
    rw [hstep, Option.bind_eq_bind, Option.bind_some]
    simp only [List.getLast?_append, List.getLast?_singleton, Option.some_or, Option.map_some]
  · obtain ⟨hblank, hid⟩ := hasked a hme ha
    refine ⟨hblank, fun hne => ?_⟩
    obtain ⟨i, rfl, hlookup⟩ := hid hne
    exact ⟨i, rfl, hlater₂.ids _ _ hlookup⟩

/-- A tapback asks for its sender's, with the type of the address's shape. -/
theorem tapback_asked {index : Nat} {tap : TapbackRecord} {cur : Current}
    (hcur : st.current = some cur) (h : st.tapback ctx index tap = some st') : Later ctx st st' ∧
      ∀ o, st.writes ctx (.tapback index tap) = some o → ∃ row ∈ st.inserted,
        row.1.sortOrder = cur.firstSortOrder + index ∧
        ∀ a, tap.isFromMe = false → tap.sender = some a →
          (trim a = "" → o = none) ∧ (trim a ≠ "" → ∃ i, o = some i ∧
            st'.handles.lookup (handleKey ctx.toLowercase a (inferHandleTypeFromShape (trim a))
              (some row.1.senderPlatform)) = some i) := by
  have hstep : st.step ctx (.tapback index tap) = some st' := h
  unfold tapback at h
  obtain ⟨current, hcurrent, h⟩ := Option.bind_eq_some_iff.mp h
  obtain rfl : cur = current := Option.some.inj (hcur.symm.trans hcurrent)
  split at h
  · cases h
    refine ⟨Later.refl st, fun o ho => ?_⟩
    unfold writes at ho
    rw [hstep, Option.bind_eq_bind, Option.bind_some] at ho
    simp only [List.drop_length, List.head?_nil] at ho
    cases ho
  · next p messageId hfind =>
    obtain ⟨⟨st₁, sender⟩, hsender, hdone⟩ := Option.bind_eq_some_iff.mp h
    cases hdone
    obtain ⟨hlater, hasked⟩ := later_resolveSender hsender
    have htaps : st₁.taps = st.taps := by
      obtain ⟨book, handles, owners, resolved, rfl⟩ := sameRows_resolveSender hsender
      rfl
    refine ⟨hlater.congr rfl rfl, fun o ho => ?_⟩
    unfold writes at ho
    rw [hstep, Option.bind_eq_bind, Option.bind_some] at ho
    simp only [htaps, List.drop_left, List.head?_cons, Option.map_some] at ho
    obtain rfl : sender = o := Option.some.inj ho
    have hplace : p.sortOrder = cur.firstSortOrder + index := by simpa using List.find?_some hfind
    refine ⟨(p, messageId), List.mem_of_find?_eq_some hfind, hplace, fun a hme ha => ?_⟩
    obtain ⟨hblank, hid⟩ := hasked a hme ha
    refine ⟨hblank, fun hne => ?_⟩
    obtain ⟨i, hi, hlookup⟩ := hid hne
    rw [Option.getD_none] at hlookup
    exact ⟨i, hi, hlookup⟩

end Stage

/-! The messages that tapbacks are on. -/

namespace Stage
variable {ctx : ImportContext} {st st' : Stage} {cur : Current} {messages : List MessageRecord}

/-- The pending row is a message's, under its number and with its platform. -/
def RowOf (cur : Current) (messages : List MessageRecord) (q : PendingStagingMessage) : Prop :=
  ∃ i : Nat, messages[i]? = some q.msg ∧ q.sortOrder = cur.firstSortOrder + i ∧
    q.senderPlatform = (senderPlatformOf cur q.msg).asStr

/-- The rows that wait and those that went in are rows of the conversation's messages. -/
structure RowsOf (cur : Current) (messages : List MessageRecord) (st : Stage) : Prop where
  current : st.current = some cur
  pending : ∀ q ∈ st.pending, RowOf cur messages q
  inserted : ∀ row ∈ st.inserted, RowOf cur messages row.1

theorem RowsOf.congr (h : RowsOf cur messages st) (hcur : st'.current = st.current)
    (hpending : st'.pending = st.pending) (hinserted : st'.inserted = st.inserted) :
    RowsOf cur messages st' :=
  ⟨hcur.trans h.current, fun q hq => h.pending q (hpending ▸ hq),
    fun row hrow => h.inserted row (hinserted ▸ hrow)⟩

/-- The messages resolved so far wait in their order. -/
structure ResolvedRows (cur : Current) (messages : List MessageRecord) (st : Stage) : Prop where
  current : st.current = some cur
  pending : st.pending.map PendingStagingMessage.msg = messages
  numbered : Numbered cur.firstSortOrder st.pending
  platform : ∀ q ∈ st.pending, q.senderPlatform = (senderPlatformOf cur q.msg).asStr
  inserted : st.inserted = []

theorem exists_place {next : Int} {ps : List PendingStagingMessage} (h : Numbered next ps)
    {q : PendingStagingMessage} (hq : q ∈ ps) :
    ∃ i : Nat, (ps.map PendingStagingMessage.msg)[i]? = some q.msg ∧ q.sortOrder = next + i := by
  induction ps generalizing next with
  | nil => cases hq
  | cons p ps ih =>
    obtain ⟨hp, hps⟩ := h
    obtain rfl | hq := List.mem_cons.mp hq
    · exact ⟨0, rfl, by rw [hp]; exact (Int.add_zero next).symm⟩
    · obtain ⟨i, hi, hsort⟩ := ih hps hq
      exact ⟨i + 1, hi, by rw [hsort, Nat.cast_add, Nat.cast_one]; omega⟩

theorem ResolvedRows.rowsOf (h : ResolvedRows cur messages st) : RowsOf cur messages st where
  current := h.current
  pending q hq := by
    obtain ⟨i, hi, hsort⟩ := exists_place h.numbered hq
    rw [h.pending] at hi
    exact ⟨i, hi, hsort, h.platform q hq⟩
  inserted row hrow := by
    rw [h.inserted] at hrow
    cases hrow

theorem participant_rows {done : List MessageRecord} {p : StagedParticipant}
    (hrows : ResolvedRows cur done st) (h : st.participant ctx p = some st') :
    ResolvedRows cur done st' := by
  have hframe := frame_participant h
  refine ⟨hframe.current.trans hrows.current, ?_, ?_, ?_, ?_⟩
  · rw [hframe.pending]
    exact hrows.pending
  · rw [hframe.pending]
    exact hrows.numbered
  · rw [hframe.pending]
    exact hrows.platform
  · unfold participant at h
    obtain ⟨current, -, h⟩ := Option.bind_eq_some_iff.mp h
    simp only at h
    split at h
    · cases h
      exact hrows.inserted
    · obtain ⟨⟨st₁, handleId, cached⟩, hres, hrest⟩ := Option.bind_eq_some_iff.mp h
      obtain ⟨st₂, hcontact, hdone⟩ := Option.bind_eq_some_iff.mp hrest
      cases hdone
      obtain ⟨book, handles, owners, resolved, rfl⟩ :=
        (sameRows_resolve hres).trans (sameRows_ensureContact hcontact)
      exact hrows.inserted

theorem participants_rows {done : List MessageRecord} {ps : List StagedParticipant}
    (hrows : ResolvedRows cur done st) (h : st.run ctx (ps.map .participant) = some st') :
    ResolvedRows cur done st' := by
  induction ps generalizing st with
  | nil =>
    obtain rfl := Option.some.inj h
    exact hrows
  | cons p ps ih =>
    obtain ⟨st₁, hone, hrest⟩ := Option.bind_eq_some_iff.mp h
    exact ih (participant_rows hrows hone) hrest

theorem message_rows {done : List MessageRecord} {msg : MessageRecord}
    (hrows : ResolvedRows cur done st) (h : st.message ctx msg = some st') :
    ResolvedRows cur (done ++ [msg]) st' := by
  unfold message at h
  obtain ⟨current, hcurrent, h⟩ := Option.bind_eq_some_iff.mp h
  obtain rfl : cur = current := Option.some.inj (hrows.current.symm.trans hcurrent)
  obtain ⟨⟨st₁, sender⟩, hsender, hrest⟩ := Option.bind_eq_some_iff.mp h
  obtain ⟨⟨st₂, owner⟩, howner, hdone⟩ := Option.bind_eq_some_iff.mp hrest
  cases hdone
  obtain ⟨book, handles, owners, resolved, rfl⟩ :=
    (sameRows_resolveSender hsender).trans (sameRows_resolveOwner howner)
  refine ⟨hrows.current, ?_, ?_, fun q hq => ?_, hrows.inserted⟩
  · rw [List.map_append, hrows.pending]
    rfl
  · rw [numbered_append]
    exact ⟨hrows.numbered, rfl, trivial⟩
  · obtain hq | hq := List.mem_append.mp hq
    · exact hrows.platform q hq
    · rw [List.mem_singleton.mp hq]
      rfl

theorem insertRows_rows {ps : List PendingStagingMessage} (hps : ∀ q ∈ ps, RowOf cur messages q)
    (hrows : RowsOf cur messages st)
    (h : ps.foldlM (fun st p => insertMessageRow ctx cur p st) st = some st') :
    RowsOf cur messages st' := by
  induction ps generalizing st with
  | nil =>
    obtain rfl := Option.some.inj h
    exact hrows
  | cons p ps ih =>
    rw [List.foldlM_cons] at h
    obtain ⟨st₁, hone, hrest⟩ := Option.bind_eq_some_iff.mp h
    refine ih (fun q hq => hps q (List.mem_cons_of_mem _ hq)) ?_ hrest
    unfold insertMessageRow at hone
    split at hone
    · split at hone
      · obtain rfl := Option.some.inj hone
        refine ⟨hrows.current, hrows.pending, fun row hrow => ?_⟩
        obtain hrow | hrow := List.mem_append.mp hrow
        · exact hrows.inserted row hrow
        · rw [List.mem_singleton.mp hrow]
          exact hps p List.mem_cons_self
      · obtain rfl := Option.some.inj hone
        exact hrows
    · cases hone

/-- A move of a flush. -/
def Flushes : Move → Prop
  | .rows _ | .tapback _ _ | .insertTapbacks => True
  | .conversation _ _ | .participant _ | .message _ => False

theorem flush_rows {move : Move} (hflush : Flushes move) (hrows : RowsOf cur messages st)
    (h : st.step ctx move = some st') : RowsOf cur messages st' := by
  cases move with
  | conversation sourceFile c => cases hflush
  | participant p => cases hflush
  | message msg => cases hflush
  | rows count =>
    have h : st.rows ctx count = some st' := h
    unfold rows at h
    obtain ⟨current, hcurrent, h⟩ := Option.bind_eq_some_iff.mp h
    obtain rfl : cur = current := Option.some.inj (hrows.current.symm.trans hcurrent)
    refine insertRows_rows (fun q hq => hrows.pending q (List.mem_of_mem_take hq)) ?_ h
    refine ⟨hrows.current, fun q hq => hrows.pending q (List.mem_of_mem_drop hq), ?_⟩
    exact fun row hrow => by cases hrow
  | tapback index tap =>
    have h : st.tapback ctx index tap = some st' := h
    unfold tapback at h
    obtain ⟨current, -, h⟩ := Option.bind_eq_some_iff.mp h
    split at h
    · cases h
      exact hrows
    · obtain ⟨⟨st₁, sender⟩, hsender, hdone⟩ := Option.bind_eq_some_iff.mp h
      cases hdone
      obtain ⟨book, handles, owners, resolved, rfl⟩ := sameRows_resolveSender hsender
      exact ⟨hrows.current, hrows.pending, hrows.inserted⟩
  | insertTapbacks =>
    obtain rfl := Option.some.inj h
    exact ⟨hrows.current, hrows.pending, fun row hrow => by cases hrow⟩

theorem flushes_rows {moves : List Move} (hflush : ∀ move ∈ moves, Flushes move)
    (hrows : RowsOf cur messages st) (h : st.run ctx moves = some st') :
    RowsOf cur messages st' := by
  induction moves generalizing st with
  | nil =>
    obtain rfl := Option.some.inj h
    exact hrows
  | cons move moves ih =>
    obtain ⟨st₁, hone, hrest⟩ := Option.bind_eq_some_iff.mp h
    exact ih (fun m hm => hflush m (List.mem_cons_of_mem _ hm))
      (flush_rows (hflush move List.mem_cons_self) hrows hone) hrest

/-! One conversation. -/

theorem insertRows_same {ps : List PendingStagingMessage}
    (h : ps.foldlM (fun st p => insertMessageRow ctx cur p st) st = some st') :
    st'.book = st.book ∧ st'.handles = st.handles ∧ st'.current = st.current := by
  induction ps generalizing st with
  | nil =>
    obtain rfl := Option.some.inj h
    exact ⟨rfl, rfl, rfl⟩
  | cons p ps ih =>
    rw [List.foldlM_cons] at h
    obtain ⟨st₁, hone, hrest⟩ := Option.bind_eq_some_iff.mp h
    have hsame := ih hrest
    unfold insertMessageRow at hone
    split at hone
    · split at hone
      · obtain rfl := Option.some.inj hone
        exact hsame
      · obtain rfl := Option.some.inj hone
        exact hsame
    · cases hone

/-- Any move is later in the import, and one that is no header keeps the conversation. -/
theorem later_step {move : Move} (h : st.step ctx move = some st') : Later ctx st st' ∧
    ((∀ sourceFile c, move ≠ .conversation sourceFile c) → st'.current = st.current) := by
  cases move with
  | conversation sourceFile c => exact ⟨(chat_asked h).1, fun hne => absurd rfl (hne sourceFile c)⟩
  | participant p =>
    have h : st.participant ctx p = some st' := h
    obtain ⟨cur, hcur, -⟩ := Option.bind_eq_some_iff.mp h
    exact ⟨(participant_asked hcur h).1, fun _ => (frame_participant h).current⟩
  | message msg =>
    have h : st.message ctx msg = some st' := h
    obtain ⟨cur, hcur, hrest⟩ := Option.bind_eq_some_iff.mp h
    refine ⟨(message_asked hcur h).1, fun _ => ?_⟩
    obtain ⟨⟨st₁, sender⟩, hsender, hrest⟩ := Option.bind_eq_some_iff.mp hrest
    obtain ⟨⟨st₂, owner⟩, howner, hdone⟩ := Option.bind_eq_some_iff.mp hrest
    cases hdone
    exact ((sameRows_resolveSender hsender).trans (sameRows_resolveOwner howner)).frame.current
  | rows count =>
    have h : st.rows ctx count = some st' := h
    obtain ⟨cur, hcur, hrest⟩ := Option.bind_eq_some_iff.mp h
    obtain ⟨hbook, hhandles, hcurrent⟩ := insertRows_same hrest
    exact ⟨(Later.refl st).congr hbook hhandles, fun _ => hcurrent⟩
  | tapback index tap =>
    have h : st.tapback ctx index tap = some st' := h
    obtain ⟨cur, hcur, -⟩ := Option.bind_eq_some_iff.mp h
    exact ⟨(tapback_asked hcur h).1, fun _ => (frame_tapback h).current⟩
  | insertTapbacks =>
    obtain rfl := Option.some.inj h
    exact ⟨(Later.refl st).congr rfl rfl, fun _ => rfl⟩

/-- **An import keeps its ids.** -/
theorem Later.run {moves : List Move} (h : st.run ctx moves = some st') : Later ctx st st' := by
  induction moves generalizing st with
  | nil =>
    obtain rfl := Option.some.inj h
    exact Later.refl _
  | cons move moves ih =>
    obtain ⟨st₁, hone, hrest⟩ := Option.bind_eq_some_iff.mp h
    exact (later_step hone).1.trans (ih hrest)

theorem current_run {moves : List Move} (hno : ∀ sourceFile c, Move.conversation sourceFile c ∉ moves)
    (h : st.run ctx moves = some st') : st'.current = st.current := by
  induction moves generalizing st with
  | nil =>
    obtain rfl := Option.some.inj h
    rfl
  | cons move moves ih =>
    obtain ⟨st₁, hone, hrest⟩ := Option.bind_eq_some_iff.mp h
    have hstep := (later_step hone).2 fun sourceFile c hmove =>
      hno sourceFile c (hmove ▸ List.mem_cons_self)
    exact (ih (fun sourceFile c hmem => hno sourceFile c (List.mem_cons_of_mem _ hmem)) hrest).trans
      hstep

theorem flushMoves_flush {chunk : List (MessageRecord × Nat)} :
    ∀ move ∈ flushMoves chunk, Flushes move := by
  intro move hmove
  obtain rfl | hmove := List.mem_cons.mp hmove
  · trivial
  · obtain hmove | hmove := List.mem_append.mp hmove
    · obtain ⟨row, -, hmove⟩ := List.mem_flatMap.mp hmove
      obtain ⟨tap, -, rfl⟩ := List.mem_map.mp hmove
      trivial
    · obtain rfl := List.mem_singleton.mp hmove
      trivial

/-- The moves of a conversation after its header. -/
def restMoves (c : StagedConversation) (messages : List MessageRecord) : List Move :=
  c.participants.map .participant ++ messages.map .message ++
    (messages.zipIdx.toChunks messageChunkRows).flatMap flushMoves

theorem not_header_mem_restMoves {c : StagedConversation} :
    ∀ sourceFile c', Move.conversation sourceFile c' ∉ restMoves c messages := by
  intro sourceFile c' hmem
  obtain hmem | hmem := List.mem_append.mp hmem
  · obtain hmem | hmem := List.mem_append.mp hmem
    · obtain ⟨p, -, hmove⟩ := List.mem_map.mp hmem
      cases hmove
    · obtain ⟨msg, -, hmove⟩ := List.mem_map.mp hmem
      cases hmove
  · obtain ⟨chunk, -, hmove⟩ := List.mem_flatMap.mp hmem
    exact flushMoves_flush _ hmove

/-- The rows of the conversation, where a flush has come to. -/
theorem rowsOf_run {c : StagedConversation} {before after : List Move} {index : Nat}
    {tap : TapbackRecord} (hstart : ResolvedRows cur [] st)
    (hmoves : restMoves c messages = before ++ .tapback index tap :: after)
    (h : st.run ctx before = some st') : RowsOf cur messages st' := by
  -- The tapback stands in the flushes, so all that is before them has run.
  obtain ⟨flushed, hbefore, hflush⟩ : ∃ flushed,
      before = c.participants.map .participant ++ messages.map .message ++ flushed ∧
        ∀ move ∈ flushed, Flushes move := by
    obtain ⟨rest, hrest, htail⟩ | ⟨flushed, hbefore, htail⟩ := List.append_eq_append_iff.mp hmoves
    · refine ⟨rest, hrest, fun move hmove => ?_⟩
      have hmem : move ∈ (messages.zipIdx.toChunks messageChunkRows).flatMap flushMoves := by
        rw [htail]
        exact List.mem_append_left _ hmove
      obtain ⟨chunk, -, hmove⟩ := List.mem_flatMap.mp hmem
      exact flushMoves_flush move hmove
    · cases flushed with
      | nil => exact ⟨[], by rw [hbefore, List.append_nil, List.append_nil], fun move hmove => by cases hmove⟩
      | cons move flushed =>
        exfalso
        obtain ⟨rfl, -⟩ := List.cons.inj htail
        have hmem : Move.tapback index tap ∈ c.participants.map .participant ++ messages.map .message := by
          rw [hbefore]
          exact List.mem_append_right _ List.mem_cons_self
        obtain hmem | hmem := List.mem_append.mp hmem
        · obtain ⟨p, -, hmove⟩ := List.mem_map.mp hmem
          cases hmove
        · obtain ⟨msg, -, hmove⟩ := List.mem_map.mp hmem
          cases hmove
  rw [hbefore, List.append_assoc, run_append] at h
  obtain ⟨st₁, hpart, h⟩ := Option.bind_eq_some_iff.mp h
  rw [run_append] at h
  obtain ⟨st₂, hmsgs, h⟩ := Option.bind_eq_some_iff.mp h
  have hpart' := participants_rows hstart hpart
  have hmsgs' : ResolvedRows cur ([] ++ messages) st₂ := by
    unfold Stage.run at hmsgs
    rw [List.foldlM_map] at hmsgs
    exact Runs.foldlM_keeps (I := fun done st => ResolvedRows cur done st)
      (fun _ _ _ _ hrows hone => message_rows hrows hone) hpart' hmsgs
  exact flushes_rows hflush hmsgs'.rowsOf h

end Stage

/-! The claimed identity. -/

/-- The type a header states for an address: of two records, the last. -/
def StagedConversation.statedType (c : StagedConversation) (address : String) : Option HandleType :=
  (headerHandleTypes c.participants).lookup (trim address)

/-- A condition is enough for two ids to be one, and with nothing in the trash it is needed. -/
def EnoughAndNeeded (untrashed condition same : Prop) : Prop :=
  (condition → same) ∧ (untrashed → same → condition)

/-- When the rows of a conversation that have a participant's address have its handle: a chat and a
message's sender when the header's last word on the address is the participant's type, a tapback's
sender when its shape is. A blank address is no sender's. -/
structure SharesHandle (untrashed : Prop) (c : StagedConversation) (messages : List MessageRecord)
    (p : StagedParticipant) (t : HandleType) (pid : Int)
    (trace : List (Move × Option (Option Int))) : Prop where
  chat : ∀ sourceFile o, (.conversation sourceFile c, some o) ∈ trace → c.isIndividual = true →
    trim c.chatIdentifier = trim p.handle →
      EnoughAndNeeded untrashed (c.statedType p.handle = some t) (o = some pid)
  sender : ∀ msg o a, (.message msg, some o) ∈ trace → msg.isFromMe = false → msg.sender = some a →
    trim a = trim p.handle → (msg.service.map HandleService.parse).getD c.platform = c.platform →
      EnoughAndNeeded untrashed (trim p.handle ≠ "" ∧ c.statedType p.handle = some t) (o = some pid)
  tapback : ∀ (i : Nat) msg tap o a, messages[i]? = some msg → (.tapback i tap, some o) ∈ trace →
    tap.isFromMe = false → tap.sender = some a → trim a = trim p.handle →
      (msg.service.map HandleService.parse).getD c.platform = c.platform →
        EnoughAndNeeded untrashed (trim p.handle ≠ "" ∧ inferHandleTypeFromShape p.handle = t)
          (o = some pid)

section
variable {c : StagedConversation}

theorem exists_statedType {p : StagedParticipant} (hp : p ∈ c.participants) {t : HandleType}
    (ht : p.handleType = some t) : ∃ t', c.statedType p.handle = some t' := by
  apply Option.ne_none_iff_exists'.mp
  intro hnone
  refine lookup_eq_none_iff.mp hnone ?_
  have hmem : (trim p.handle, t) ∈ headerHandleTypes c.participants := by
    unfold headerHandleTypes
    rw [List.mem_reverse, List.mem_filterMap]
    exact ⟨p, hp, by rw [ht, Option.map_some]⟩
  exact List.mem_map.mpr ⟨_, hmem, rfl⟩

theorem inferHandleTypeFromShape_trim (s : String) :
    inferHandleTypeFromShape (trim s) = inferHandleTypeFromShape s := by
  unfold inferHandleTypeFromShape
  rw [trim_trim]

/-- Two addresses that are one get one id when their types are one, and only then with nothing in
the trash. -/
theorem enoughAndNeeded_of_asked {ctx : ImportContext} {st : Stage} {untrashed : Prop}
    (hroot : untrashed → st.Rooted ctx) {a a' : String} {t t' : HandleType} {service : Option String}
    {i pid : Int} (haddress : trim a = trim a')
    (hi : st.handles.lookup (handleKey ctx.toLowercase a t service) = some i)
    (hpid : st.handles.lookup (handleKey ctx.toLowercase a' t' service) = some pid) :
    EnoughAndNeeded untrashed (t = t') (some i = some pid) := by
  constructor
  · intro htype
    rw [(handleKey_eq_iff haddress).mpr htype, hpid] at hi
    exact hi.symm
  · intro huntrashed hsame
    rw [hsame] at hi
    exact (handleKey_eq_iff haddress).mp ((hroot huntrashed).key_eq hi hpid)

/-- **When one address of a conversation is one identity.** -/
theorem sharesHandle_stageMoves {ctx : ImportContext} {book : Book} {before : List Move}
    {st st' : Stage} {sourceFile : String} {messages : List MessageRecord}
    (hbefore : (Stage.start book).run ctx before = some st)
    (h : st.run ctx (stageMoves sourceFile c messages) = some st')
    {p : StagedParticipant} (hp : p ∈ c.participants) {t : HandleType} (ht : p.handleType = some t)
    {pid : Int} (hpid : (.participant p, some (some pid)) ∈
      Stage.trace ctx (stageMoves sourceFile c messages) st) :
    SharesHandle (∀ q ∈ book.trashedContacts, q.1 ≠ ctx.accountId) c messages p t pid
      (Stage.trace ctx (stageMoves sourceFile c messages) st) := by
  have hmoves : stageMoves sourceFile c messages =
      .conversation sourceFile c :: Stage.restMoves c messages := rfl
  have hheaders : ∀ f c', Move.conversation f c' ∉ Stage.restMoves c messages :=
    Stage.not_header_mem_restMoves
  -- The rows behind the ids at the end.
  have hroot : (∀ q ∈ book.trashedContacts, q.1 ≠ ctx.accountId) → st'.Rooted ctx := by
    intro huntrashed
    have hstart : (Stage.start book).Rooted ctx := ⟨huntrashed, fun key id hkey => by cases hkey⟩
    exact (Stage.Later.run h).rooted ((Stage.Later.run hbefore).rooted hstart)
  obtain ⟨st₁, hheader, hrest⟩ := Option.bind_eq_some_iff.mp h
  have hheader : st.conversation ctx sourceFile c = some st₁ := hheader
  obtain ⟨hchatLater, chatId, hchatWrites, hchatLookup, ⟨cur, hcur, hplatform, htypes⟩, hpending,
    hinserted⟩ := Stage.chat_asked hheader
  -- A move after the header is made in the header's conversation, before the end.
  have hspot : ∀ {move : Move} {o : Option (Option Int)},
      (move, o) ∈ Stage.trace ctx (stageMoves sourceFile c messages) st →
      (∀ sourceFile c', move ≠ .conversation sourceFile c') →
      ∃ pre post s s', Stage.restMoves c messages = pre ++ move :: post ∧ st₁.run ctx pre = some s ∧
        s.current = some cur ∧ s.step ctx move = some s' ∧ Stage.Later ctx s' st' ∧
        o = s.writes ctx move := by
    intro move o hmem hno
    obtain ⟨pre, post, s, s', hsplit, hpre, hstep, hpost, ho⟩ := Stage.mem_trace h hmem
    rw [hmoves] at hsplit
    cases pre with
    | nil => exact absurd (List.cons.inj hsplit).1.symm (hno _ _)
    | cons move' pre =>
      obtain ⟨rfl, htail⟩ := List.cons.inj hsplit
      obtain ⟨st₂, hone, hpre⟩ := Option.bind_eq_some_iff.mp hpre
      obtain rfl : st₁ = st₂ := Option.some.inj (hheader.symm.trans hone)
      refine ⟨pre, post, s, s', htail, hpre, ?_, hstep, Stage.Later.run hpost, ho⟩
      refine (Stage.current_run (fun f c' hmem' => ?_) hpre).trans hcur
      refine hheaders f c' ?_
      rw [htail]
      exact List.mem_append_left _ hmem'
  -- The participant's own identity.
  have hpidLookup : st'.handles.lookup (handleKey ctx.toLowercase p.handle t
      (some c.platform.asStr)) = some pid := by
    obtain ⟨-, -, s, s', -, -, hscur, hstep, hlater, ho⟩ := hspot hpid (fun _ _ hne => by cases hne)
    have hasked := (Stage.participant_asked hscur hstep).2 pid ho.symm
    rw [ht, Option.getD_some, hplatform] at hasked
    exact hlater.ids _ _ hasked
  obtain ⟨t', ht'⟩ := exists_statedType hp ht
  have hstated : c.statedType p.handle = some t ↔ t' = t := by
    rw [ht', Option.some.injEq]
  have hsenderPlatform : ∀ msg : MessageRecord,
      (msg.service.map HandleService.parse).getD c.platform = c.platform →
        Stage.senderPlatformOf cur msg = c.platform := by
    intro msg hmsg
    unfold Stage.senderPlatformOf
    cases hservice : msg.service with
    | none => exact hplatform
    | some service =>
      rw [hservice, Option.map_some, Option.getD_some] at hmsg
      exact hmsg
  constructor
  · intro f o hmem hind haddress
    obtain ⟨pre, post, s, s', hsplit, hpre, hstep, hpost, ho⟩ := Stage.mem_trace h hmem
    rw [hmoves] at hsplit
    cases pre with
    | nil =>
      have hfile : sourceFile = f := (Move.conversation.inj (List.cons.inj hsplit).1).1
      have hstate : st = s := Option.some.inj hpre
      rw [← hstate, ← hfile, hchatWrites] at ho
      obtain rfl := Option.some.inj ho
      have htype : c.chatHandleType = t' := by
        have hlookup : (headerHandleTypes c.participants).lookup (trim c.chatIdentifier) = some t' := by
          rw [haddress]
          exact ht'
        unfold StagedConversation.chatHandleType
        rw [if_pos hind, hlookup, Option.getD_some]
      rw [htype] at hchatLookup
      rw [hstated]
      exact enoughAndNeeded_of_asked hroot haddress
        ((Stage.Later.run hrest).ids _ _ hchatLookup) hpidLookup
    | cons move pre =>
      exfalso
      obtain ⟨-, htail⟩ := List.cons.inj hsplit
      refine hheaders f c ?_
      rw [htail]
      exact List.mem_append_right _ List.mem_cons_self
  · intro msg o a hmem hme ha haddress hservice
    obtain ⟨-, -, s, s', -, -, hscur, hstep, hlater, ho⟩ := hspot hmem (fun _ _ hne => by cases hne)
    obtain ⟨-, o', ho', hasked⟩ := Stage.message_asked hscur hstep
    obtain rfl : o' = o := Option.some.inj (ho'.symm.trans ho.symm)
    obtain ⟨hblank, hid⟩ := hasked a hme ha
    rw [← haddress, hstated]
    by_cases hne : trim a = ""
    · rw [hblank hne]
      exact ⟨fun hcond => absurd hne hcond.1, fun _ hsame => by cases hsame⟩
    · obtain ⟨i, rfl, hlookup⟩ := hid hne
      have htype : (Stage.senderType cur.headerTypes msg).getD (inferHandleTypeFromShape (trim a)) = t' := by
        unfold Stage.senderType
        rw [ha, Option.bind_some, htypes, haddress]
        have hlookup' : (headerHandleTypes c.participants).lookup (trim p.handle) = some t' := ht'
        rw [hlookup']
        rfl
      rw [htype, hsenderPlatform msg hservice] at hlookup
      obtain ⟨henough, hneeded⟩ :=
        enoughAndNeeded_of_asked hroot haddress (hlater.ids _ _ hlookup) hpidLookup
      exact ⟨fun hcond => henough hcond.2, fun hun hsame => ⟨hne, hneeded hun hsame⟩⟩
  · intro i msg tap o a hi hmem hme ha haddress hservice
    obtain ⟨pre, post, s, s', hsplit, hpre, hscur, hstep, hlater, ho⟩ :=
      hspot hmem (fun _ _ hne => by cases hne)
    obtain ⟨row, hrow, hplace, hasked⟩ := (Stage.tapback_asked hscur hstep).2 o ho.symm
    have hstart : Stage.ResolvedRows cur [] st₁ := by
      refine ⟨hcur, ?_, ?_, ?_, hinserted⟩
      · rw [hpending]
        rfl
      · rw [hpending]
        trivial
      · rw [hpending]
        exact fun q hq => by cases hq
    obtain ⟨j, hj, hsort, hrowPlatform⟩ := (Stage.rowsOf_run hstart hsplit hpre).inserted row hrow
    have hij : j = i := by omega
    rw [hij, hi] at hj
    rw [hrowPlatform, ← Option.some.inj hj, hsenderPlatform msg hservice] at hasked
    obtain ⟨hblank, hid⟩ := hasked a hme ha
    rw [← haddress, ← inferHandleTypeFromShape_trim p.handle, ← haddress]
    by_cases hne : trim a = ""
    · rw [hblank hne]
      exact ⟨fun hcond => absurd hne hcond.1, fun _ hsame => by cases hsame⟩
    · obtain ⟨i', rfl, hlookup⟩ := hid hne
      obtain ⟨henough, hneeded⟩ :=
        enoughAndNeeded_of_asked hroot haddress (hlater.ids _ _ hlookup) hpidLookup
      exact ⟨fun hcond => henough hcond.2, fun hun hsame => ⟨hne, hneeded hun hsame⟩⟩

end

/-! A group of one person, typed `other` by the exporter. -/

deriving instance DecidableEq for Move

/-- An internal id, which holds an `@` and is no email address. -/
def lidParticipant : StagedParticipant where
  handle := "123456@lid"
  nameAlias := none
  handleType := some .other

def lidGroup : StagedConversation where
  chatIdentifier := "120363042@g.us"
  platformService := none
  conversationType := "group"
  groupTitle := none
  exportedAt := none
  participants := [lidParticipant]
  source := "whatsapp"

def lidTapback : TapbackRecord where
  partIndex := 0
  kind := "love"
  emoji := none
  isFromMe := false
  sender := some "123456@lid"

/-- Their message, with their own reaction to it. -/
def lidMessage : MessageRecord :=
  { textOf "m1" "t" with isFromMe := false, sender := some "123456@lid", tapbacks := [lidTapback] }

def lidContext : ImportContext where
  toLowercase := id
  walk := Walk.inserted
  accountId := 1
  importId := none
  identities := []
  db := Db.empty

def noBook : Book := ⟨Table.empty, Table.empty, Table.empty, [], []⟩

/-- The tapback's sender is not the participant of the same address. -/
theorem tapback_sender_is_another :
    (∃ st', (Stage.start noBook).run lidContext (stageMoves "a.jsonl" lidGroup [lidMessage]) =
        some st') ∧
      lidTapback.sender = some lidParticipant.handle ∧
      (lidMessage.service.map HandleService.parse).getD lidGroup.platform = lidGroup.platform ∧
      ¬ ∀ pid o, (.participant lidParticipant, some (some pid)) ∈
          Stage.trace lidContext (stageMoves "a.jsonl" lidGroup [lidMessage]) (Stage.start noBook) →
        (.tapback 0 lidTapback, some o) ∈
          Stage.trace lidContext (stageMoves "a.jsonl" lidGroup [lidMessage]) (Stage.start noBook) →
        o = some pid := by
  have hrun : ((Stage.start noBook).run lidContext
      (stageMoves "a.jsonl" lidGroup [lidMessage])).isSome = true := by decide +kernel
  refine ⟨Option.isSome_iff_exists.mp hrun, rfl, rfl, fun hsame => ?_⟩
  have htwo := hsame 2 (some 3) (by decide +kernel) (by decide +kernel)
  exact absurd htwo (by decide)

theorem sharesHandle_lidGroup :
    ∃ st', (Stage.start noBook).run lidContext (stageMoves "a.jsonl" lidGroup [lidMessage]) =
        some st' ∧
      SharesHandle (∀ q ∈ noBook.trashedContacts, q.1 ≠ lidContext.accountId) lidGroup [lidMessage]
        lidParticipant .other 2
        (Stage.trace lidContext (stageMoves "a.jsonl" lidGroup [lidMessage]) (Stage.start noBook)) := by
  have hrun : ((Stage.start noBook).run lidContext
      (stageMoves "a.jsonl" lidGroup [lidMessage])).isSome = true := by decide +kernel
  have hpid : (.participant lidParticipant, some (some 2)) ∈
      Stage.trace lidContext (stageMoves "a.jsonl" lidGroup [lidMessage]) (Stage.start noBook) := by
    decide +kernel
  obtain ⟨st', hst'⟩ := Option.isSome_iff_exists.mp hrun
  have hstart : (Stage.start noBook).run lidContext [] = some (Stage.start noBook) := rfl
  exact ⟨st', hst', sharesHandle_stageMoves hstart hst' List.mem_cons_self rfl hpid⟩

end MessageCrate

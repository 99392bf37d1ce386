import MessageCrate.Lib.Runs
import MessageCrate.Server.Tokens

/- The end of each Session, as the Audit Trail tells it.

   A run-out Session's end is not stored: it is read from the latest expiry its login's
   entries hold. So a writer must leave a Session that ran out alone. Logins, revocations and
   deletions ask first (`liveLoginEntry`); a logout does not, and a change of password renews
   the row whatever its state.

   1. `stored`, `expiry`: what the entries say of a login, and what one more entry changes.
   2. `Reads`: the end a login reads as; `mem_endsOf`: it is what the pages show.
   3. `Told`: what the row and the entries say of each other, through each kind of write.
   4. `trail_tells_each_end_once_iff`: the runs in which the trail tells each end once are
      those in which nobody logs out with the token of a Session a page has shown as run out,
      and no password is changed while the account has no live Session. -/
namespace MessageCrate.Sessions
open SqlTable Runs Sessions.World

/-! What the entries say of a login. -/

section
variable {es : List AuditEntryRow} {e l : AuditEntryRow} {login : Int} {now x : Nat}

def stored (es : List AuditEntryRow) (login : Int) : Prop :=
  ∃ e ∈ es, e.action = .sessionEnded ∧ e.sessionEntryId = some login

/-- The expiries the changes of password that renewed a login hold. -/
def renewals (es : List AuditEntryRow) (login : Int) : List Nat :=
  (es.filter (fun r => r.sessionEntryId = some login ∧ r.action = .passwordSet)).filterMap
    (fun r => r.sessionExpiresAt)

def expiry (es : List AuditEntryRow) (l : AuditEntryRow) : Option Nat :=
  (renewals es l.id).max?.or l.sessionExpiresAt

theorem stored_append : stored (es ++ [e]) login ↔
    stored es login ∨ e.action = .sessionEnded ∧ e.sessionEntryId = some login := by
  simp [stored, or_and_right, exists_or]

theorem renewals_append_other (h : e.action = .passwordSet → e.sessionEntryId ≠ some login) :
    renewals (es ++ [e]) login = renewals es login := by
  have hother : ¬ (e.sessionEntryId = some login ∧ e.action = .passwordSet) :=
    fun hboth => h hboth.2 hboth.1
  simp [renewals, hother]

theorem expiry_append_other (h : e.action = .passwordSet → e.sessionEntryId ≠ some l.id) :
    expiry (es ++ [e]) l = expiry es l := by
  rw [expiry, renewals_append_other h, expiry]

/-- A renewal no earlier than any before it is the latest. -/
theorem expiry_append_renewal (haction : e.action = .passwordSet)
    (hlink : e.sessionEntryId = some l.id) (hexpires : e.sessionExpiresAt = some x)
    (hlast : ∀ r ∈ es, ∀ y, r.sessionExpiresAt = some y → y ≤ x) :
    expiry (es ++ [e]) l = some x := by
  have hnew : renewals (es ++ [e]) l.id = renewals es l.id ++ [x] := by
    simp [renewals, haction, hlink, hexpires]
  have hmax : (renewals es l.id ++ [x]).max? = some x := by
    rw [List.max?_eq_some_iff]
    refine ⟨by simp, fun y hy => ?_⟩
    rcases List.mem_append.mp hy with hold | hself
    · obtain ⟨r, hr, hry⟩ := List.mem_filterMap.mp hold
      exact hlast r (List.mem_of_mem_filter hr) y hry
    · exact Nat.le_of_eq (List.mem_singleton.mp hself)
  rw [expiry, hnew, hmax]
  rfl

/-- A login nothing links to yet runs out when it says. -/
theorem expiry_of_not_linked (h : ∀ r ∈ es, r.sessionEntryId ≠ some l.id) :
    expiry es l = l.sessionExpiresAt := by
  have hnone : renewals es l.id = [] := by
    rw [renewals, List.filter_eq_nil_iff.mpr]
    · rfl
    · intro r hr
      simp [h r hr]
  rw [expiry, hnone]
  rfl

/-! The end a login reads as. -/

/-- The entry that is stored as the end, or the expiry that has passed with none stored. -/
def Reads (es : List AuditEntryRow) (now : Nat) (s : SessionEnd) : Prop :=
  (∃ e ∈ es, e.action = .sessionEnded ∧ e.sessionEntryId = some s.login ∧ e.reason = s.reason ∧
    e.at_ = s.at_) ∨
  (¬ stored es s.login ∧ s.reason = some .expired ∧
    ∃ l ∈ es, l.id = s.login ∧ l.action = .loggedIn ∧ expiry es l = some s.at_ ∧ s.at_ ≤ now)

variable {s : SessionEnd}

theorem Reads.later {now' : Nat} (h : Reads es now s) (hle : now ≤ now') : Reads es now' s := by
  rcases h with hstored | ⟨hnone, hreason, l, hl, hid, haction, hexpiry, hpast⟩
  · exact .inl hstored
  · exact .inr ⟨hnone, hreason, l, hl, hid, haction, hexpiry, Nat.le_trans hpast hle⟩

/-- An entry linked to another login leaves the end as it was. -/
theorem Reads.append (h : Reads es now s) (hlink : e.sessionEntryId ≠ some s.login) :
    Reads (es ++ [e]) now s := by
  rcases h with ⟨e', he', hend⟩ | ⟨hnone, hreason, l, hl, hid, haction, hexpiry, hpast⟩
  · exact .inl ⟨e', List.mem_append_left _ he', hend⟩
  · refine .inr ⟨?_, hreason, l, List.mem_append_left _ hl, hid, haction, ?_, hpast⟩
    · rw [stored_append]
      rintro (hold | ⟨-, hnew⟩)
      · exact hnone hold
      · exact hlink hnew
    · rw [expiry_append_other (fun _ => hid ▸ hlink)]
      exact hexpiry

end

/-! What the pages show. -/

section
variable {db : Server} {now : Nat} {runs : List RunRow} {e l : AuditEntryRow} {s : SessionEnd}

theorem find?_entry (h : e ∈ db.entries.rows) :
    db.entries.rows.find? (fun x => x.id = e.id) = some e := by
  cases hfind : db.entries.rows.find? (fun x => x.id = e.id) with
  | none => exact absurd (List.find?_eq_none.mp hfind e h) (by simp)
  | some e' =>
    have hid : e'.id = e.id := by simpa using List.find?_some hfind
    rw [Table.eq_of_id_eq (List.mem_of_find?_eq_some hfind) h hid]

theorem storedEnd_iff {login : Int} : db.storedEnd login = true ↔ stored db.history login := by
  simp only [Server.storedEnd, List.any_eq_true, decide_eq_true_eq]
  constructor
  · rintro ⟨e, he, hlink, haction⟩
    exact ⟨e.unowned, List.mem_map_of_mem he, haction, hlink⟩
  · rintro ⟨e', he', haction, hlink⟩
    obtain ⟨e, he, rfl⟩ := List.mem_map.mp he'
    exact ⟨e, he, hlink, haction⟩

theorem sessionExpiry_eq (l : AuditEntryRow) :
    db.sessionExpiry l = expiry db.history l.unowned := by
  have hrenewals : renewals db.history l.id = ((db.entries.rows.filter (fun r =>
      r.sessionEntryId = some l.id ∧ r.action = .passwordSet)).filterMap
        (fun r => r.sessionExpiresAt)) := by
    rw [renewals, Server.history, List.filter_map, List.filterMap_map]
    rfl
  rw [Server.sessionExpiry, expiry, ← hrenewals]
  rfl

/-- A stored end, as a row of the trail reads. -/
def storedEndOf (login : Int) (e : AuditEntryRow) : Option SessionEnd :=
  if e.action = .sessionEnded ∧ e.sessionEntryId = some login then some ⟨login, e.reason, e.at_⟩
  else none

/-- An expiry that has passed, as a row of the trail reads. -/
def ranOutEndOf (now : Nat) (db : Server) (login : Int) (l : AuditEntryRow) : Option SessionEnd :=
  if l.id = login ∧ l.action = .loggedIn ∧ db.storedEnd login = false then
    (db.sessionExpiry l).bind (fun x => if x ≤ now then some ⟨login, some .expired, x⟩ else none)
  else none

theorem loadEnd_entry (h : e ∈ db.entries.rows) (login : Int) :
    (db.loadEnd ⟨.entry, e.id, e.at_, e.accountId⟩).filter (fun s => s.login = login) =
      storedEndOf login e := by
  simp only [Server.loadEnd, find?_entry h, Option.bind_some, storedEndOf]
  by_cases haction : e.action = .sessionEnded
  · cases hlink : e.sessionEntryId with
    | none => simp [haction]
    | some login' =>
      by_cases heq : login' = login
      · subst heq
        simp [haction, Option.filter]
      · simp [haction, Option.filter, heq]
  · simp [haction]

theorem loadEnd_expiryRow (h : l ∈ db.entries.rows) (login : Int) :
    ((db.expiryRow now l).bind db.loadEnd).filter (fun s => s.login = login) =
      ranOutEndOf now db login l := by
  by_cases hid : l.id = login
  · subst hid
    unfold Server.expiryRow ranOutEndOf
    by_cases hopen : l.action = .loggedIn ∧ db.storedEnd l.id = false
    · rw [if_pos hopen, if_pos ⟨rfl, hopen⟩]
      cases hexpiry : db.sessionExpiry l with
      | none => rfl
      | some x =>
        by_cases hpast : x ≤ now
        · simp [hpast, Server.loadEnd, find?_entry h, hexpiry, Option.filter]
        · simp [hpast]
    · rw [if_neg hopen, if_neg (fun hboth => hopen hboth.2)]
      rfl
  · have hnone : ranOutEndOf now db login l = none := if_neg (fun hboth => hid hboth.1)
    rw [hnone, Server.expiryRow]
    split
    · cases hexpiry : db.sessionExpiry l with
      | none => rfl
      | some x =>
        by_cases hpast : x ≤ now
        · simp [hpast, Server.loadEnd, find?_entry h, hexpiry, Option.filter, hid]
        · simp [hpast]
    · rfl

theorem loadEnd_run (r : RunRow) : db.loadEnd r.toSourceRow = none := by
  unfold Server.loadEnd
  rcases r.isRun with h | h <;> rw [h]

/-- The ends of a login: those stored, then the one its expiry reads as. -/
theorem endsOf_eq (now : Nat) (db : Server) (runs : List RunRow) (login : Int) :
    db.endsOf now runs login =
      db.entries.rows.filterMap (storedEndOf login) ++
        db.entries.rows.filterMap (ranOutEndOf now db login) := by
  have hruns : (runs.map RunRow.toSourceRow).filterMap db.loadEnd = [] := by
    rw [List.filterMap_eq_nil_iff]
    intro r hr
    obtain ⟨run, -, rfl⟩ := List.mem_map.mp hr
    exact loadEnd_run run
  rw [Server.endsOf, Server.sources, List.filterMap_append, List.filterMap_append, hruns,
    List.append_nil, List.filter_append]
  congr 1
  · rw [List.filterMap_map, List.filter_filterMap]
    exact List.filterMap_congr (fun e he => loadEnd_entry he login)
  · rw [List.filterMap_filterMap, List.filter_filterMap]
    exact List.filterMap_congr (fun l hl => loadEnd_expiryRow hl login)

/-- What the trail holds for a login is what the login reads as. -/
theorem mem_endsOf (runs : List RunRow) {login : Int} : s ∈ db.endsOf now runs login ↔
    s.login = login ∧ Reads db.history now s := by
  rw [endsOf_eq, List.mem_append, List.mem_filterMap, List.mem_filterMap]
  constructor
  · rintro (⟨e, he, hs⟩ | ⟨l, hl, hs⟩)
    · unfold storedEndOf at hs
      split at hs
      · next hend =>
        cases hs
        exact ⟨rfl, .inl ⟨e.unowned, List.mem_map_of_mem he, hend.1, hend.2, rfl, rfl⟩⟩
      · cases hs
    · unfold ranOutEndOf at hs
      split at hs
      · next hopen =>
        obtain ⟨x, hx, hs⟩ := Option.bind_eq_some_iff.mp hs
        split at hs
        · next hpast =>
          cases hs
          refine ⟨rfl, .inr ⟨?_, rfl, l.unowned, List.mem_map_of_mem hl, hopen.1, hopen.2.1,
            (sessionExpiry_eq l).symm.trans hx, hpast⟩⟩
          rw [← storedEnd_iff, hopen.2.2]
          simp
        · cases hs
      · cases hs
  · rintro ⟨rfl, ⟨e', he', haction, hlink, hreason, hat⟩ |
      ⟨hnone, hreason, l', hl', hid, haction, hexpiry, hpast⟩⟩
    · obtain ⟨e, he, rfl⟩ := List.mem_map.mp he'
      refine .inl ⟨e, he, ?_⟩
      rw [storedEndOf, if_pos ⟨haction, hlink⟩]
      exact congrArg some (by cases s; simp_all [AuditEntryRow.unowned])
    · obtain ⟨l, hl, rfl⟩ := List.mem_map.mp hl'
      refine .inr ⟨l, hl, ?_⟩
      have hopen : db.storedEnd s.login = false := by
        rw [Bool.eq_false_iff]
        exact fun h => hnone (storedEnd_iff.mp h)
      rw [ranOutEndOf, if_pos ⟨hid, haction, hopen⟩, sessionExpiry_eq, hexpiry, Option.bind_some,
        if_pos hpast]
      exact congrArg some (by cases s; simp_all)

/-- A row of a page is one of the trail's, so an end it shows is an end that reads so. -/
theorem reads_of_mem_page {scope : Option Int} {limit offset : Nat}
    (h : s ∈ (db.page now runs scope limit offset).filterMap db.loadEnd) :
    Reads db.history now s := by
  obtain ⟨row, hrow, hs⟩ := List.mem_filterMap.mp h
  have hsource : row ∈ db.sources now runs :=
    List.mem_of_mem_filter ((List.mem_insertionSort _).mp
      (List.mem_of_mem_drop (List.mem_of_mem_take hrow)))
  have hend : s ∈ db.endsOf now runs s.login :=
    List.mem_filter.mpr ⟨List.mem_filterMap.mpr ⟨row, hsource, hs⟩, by simp⟩
  exact ((mem_endsOf _).mp hend).2

end

/-! The row and the entries. -/

/-- What the entries say of each other. -/
structure Logged (now : Nat) (es : List AuditEntryRow) : Prop where
  ids : ∀ e ∈ es, ∀ e' ∈ es, e.id = e'.id → e = e'
  once : ∀ e ∈ es, ∀ e' ∈ es, ∀ login, e.action = .sessionEnded → e.sessionEntryId = some login →
    e'.action = .sessionEnded → e'.sessionEntryId = some login → e = e'
  linked : ∀ e ∈ es, ∀ login, e.sessionEntryId = some login → ∃ l ∈ es, l.id = login
  /-- No expiry is later than that of a row made now. -/
  bounded : ∀ e ∈ es, ∀ x, e.sessionExpiresAt = some x →
    x ≤ expiryText (nowUnixSecs now + sessionTtlSecs)

/-- What the account's row and its entries say of each other. -/
structure Told (now : Nat) (session : Option SessionRow) (es : List AuditEntryRow) : Prop extends
    Logged now es where
  /-- The row's login reads as running out when the row does, and no end of it is stored. -/
  row : ∀ row, session = some row → ∃ l ∈ es, row.loginEntryId = some l.id ∧ l.action = .loggedIn ∧
    expiry es l = some (expiryText row.expiresAt) ∧ ¬ stored es l.id
  /-- A login with no end stored has run out, or is the row's. -/
  told : ∀ l ∈ es, l.action = .loggedIn → ¬ stored es l.id → ∃ x, expiry es l = some x ∧
    (x ≤ now ∨ ∃ row, session = some row ∧ row.loginEntryId = some l.id)

/-- The row is live just when the trail's expiry has not passed. -/
theorem live_iff {now : Nat} {row : SessionRow} :
    row.live now = true ↔ now < expiryText row.expiresAt := by
  rw [SessionRow.live, nowUnixSecs, expiryText, decide_eq_true_eq, gt_iff_lt]
  exact Nat.div_lt_iff_lt_mul (by decide)

section
variable {now : Nat} {session : Option SessionRow} {es : List AuditEntryRow} {e l : AuditEntryRow}
  {row row' : SessionRow} {login : Int} {s : SessionEnd}

theorem Logged.append (h : Logged now es) (hfresh : ∀ x ∈ es, x.id ≠ e.id)
    (hlink : ∀ login, e.sessionEntryId = some login → ∃ l ∈ es, l.id = login)
    (hend : e.action = .sessionEnded → ∀ login, e.sessionEntryId = some login → ¬ stored es login)
    (hexpires : ∀ x, e.sessionExpiresAt = some x →
      x ≤ expiryText (nowUnixSecs now + sessionTtlSecs)) :
    Logged now (es ++ [e]) := by
  refine ⟨fun x hx y hy hid => ?_, fun x hx y hy login hx₁ hx₂ hy₁ hy₂ => ?_,
    fun x hx login hl => ?_, fun x hx => ?_⟩
  · rcases List.mem_append.mp hx with hx | hx <;> rcases List.mem_append.mp hy with hy | hy
    · exact h.ids x hx y hy hid
    · cases List.mem_singleton.mp hy
      exact absurd hid (hfresh x hx)
    · cases List.mem_singleton.mp hx
      exact absurd hid.symm (hfresh y hy)
    · rw [List.mem_singleton.mp hx, List.mem_singleton.mp hy]
  · rcases List.mem_append.mp hx with hx | hx <;> rcases List.mem_append.mp hy with hy | hy
    · exact h.once x hx y hy login hx₁ hx₂ hy₁ hy₂
    · cases List.mem_singleton.mp hy
      exact absurd ⟨x, hx, hx₁, hx₂⟩ (hend hy₁ login hy₂)
    · cases List.mem_singleton.mp hx
      exact absurd ⟨y, hy, hy₁, hy₂⟩ (hend hx₁ login hx₂)
    · rw [List.mem_singleton.mp hx, List.mem_singleton.mp hy]
  · have hold : ∃ l ∈ es, l.id = login := by
      rcases List.mem_append.mp hx with hx | hx
      · exact h.linked x hx login hl
      · cases List.mem_singleton.mp hx
        exact hlink login hl
    obtain ⟨l, hl', hid⟩ := hold
    exact ⟨l, List.mem_append_left _ hl', hid⟩
  · rcases List.mem_append.mp hx with hx | hx
    · exact h.bounded x hx
    · cases List.mem_singleton.mp hx
      exact hexpires

theorem Logged.later {now' : Nat} (h : Logged now es) (hle : now ≤ now') : Logged now' es where
  ids := h.ids
  once := h.once
  linked := h.linked
  bounded e he x hx := by
    refine Nat.le_trans (h.bounded e he x hx) (Nat.mul_le_mul_right _ ?_)
    exact Nat.add_le_add_right (Nat.div_le_div_right hle) _

theorem Told.nil (now : Nat) : Told now none [] where
  ids _ h := absurd h List.not_mem_nil
  once _ h := absurd h List.not_mem_nil
  linked _ h := absurd h List.not_mem_nil
  bounded _ h := absurd h List.not_mem_nil
  row _ h := nomatch h
  told _ h := absurd h List.not_mem_nil

theorem Told.later {now' : Nat} (h : Told now session es) (hle : now ≤ now') :
    Told now' session es where
  toLogged := h.toLogged.later hle
  row := h.row
  told l hl haction hnone := by
    obtain ⟨x, hx, hpast⟩ := h.told l hl haction hnone
    exact ⟨x, hx, hpast.imp_left fun hp => Nat.le_trans hp hle⟩

/-- A row that ran out goes; its login goes on reading as run out. -/
theorem Told.drops (h : Told now (some row) es) (hdead : row.live now = false) :
    Told now none es where
  toLogged := h.toLogged
  row _ hrow := nomatch hrow
  told l hl haction hnone := by
    obtain ⟨x, hx, hpast | ⟨row', hrow', hid⟩⟩ := h.told l hl haction hnone
    · exact ⟨x, hx, .inl hpast⟩
    · cases hrow'
      obtain ⟨l', hl', hid', -, hexpiry, -⟩ := h.row row rfl
      cases h.ids l hl l' hl' (Option.some.inj (hid.symm.trans hid'))
      refine ⟨_, hexpiry, .inl (Nat.le_of_not_lt fun hlt => ?_)⟩
      exact absurd (hdead.symm.trans (live_iff.mpr hlt)) (by simp)

/-- The row's login ends, with the row. -/
theorem Told.closes (h : Told now (some row) es) (haction : e.action = .sessionEnded)
    (hlink : e.sessionEntryId = some login) (hexpires : e.sessionExpiresAt = none)
    (hlogin : row.loginEntryId = some login) (hfresh : ∀ x ∈ es, x.id ≠ e.id) :
    Told now none (es ++ [e]) := by
  obtain ⟨l₀, hl₀, hid₀, -, -, hopen⟩ := h.row row rfl
  have hid₀ : l₀.id = login := Option.some.inj (hid₀.symm.trans hlogin)
  have hlogged : Logged now (es ++ [e]) := by
    refine h.append hfresh (fun login' hlink' => ?_) (fun _ login' hlink' => ?_) (by simp [hexpires])
    · cases hlink.symm.trans hlink'
      exact ⟨l₀, hl₀, hid₀⟩
    · cases hlink.symm.trans hlink'
      rw [← hid₀]
      exact hopen
  refine { hlogged with row := fun _ hrow => (nomatch hrow), told := fun l hl hact hnone => ?_ }
  rcases List.mem_append.mp hl with hl | hl
  · rw [stored_append] at hnone
    obtain ⟨x, hx, hpast⟩ := h.told l hl hact (fun hold => hnone (.inl hold))
    have hsame : expiry (es ++ [e]) l = expiry es l :=
      expiry_append_other (fun hset => by simp [haction] at hset)
    refine ⟨x, hsame.trans hx, .inl (hpast.resolve_right ?_)⟩
    rintro ⟨row', hrow', hid⟩
    cases hrow'
    have hid : login = l.id := Option.some.inj (hlogin.symm.trans hid)
    exact hnone (.inr ⟨haction, hid ▸ hlink⟩)
  · cases List.mem_singleton.mp hl
    simp [haction] at hact

/-- An entry of no Session is written. -/
theorem Told.notes (h : Told now none es) (haction : e.action = .accountDeleted)
    (hlink : e.sessionEntryId = none) (hexpires : e.sessionExpiresAt = none)
    (hfresh : ∀ x ∈ es, x.id ≠ e.id) : Told now none (es ++ [e]) := by
  have hlogged : Logged now (es ++ [e]) :=
    h.append hfresh (by simp [hlink]) (by simp [hlink]) (by simp [hexpires])
  refine { hlogged with row := fun _ hrow => (nomatch hrow), told := fun l hl hact hnone => ?_ }
  rcases List.mem_append.mp hl with hl | hl
  · rw [stored_append] at hnone
    obtain ⟨x, hx, hpast⟩ := h.told l hl hact (fun hold => hnone (.inl hold))
    refine ⟨x, ?_, hpast⟩
    rw [expiry_append_other (by simp [hlink]), hx]
  · cases List.mem_singleton.mp hl
    simp [haction] at hact

/-- A login is written, and its row. -/
theorem Told.opens (h : Told now none es) (haction : l.action = .loggedIn)
    (hlink : l.sessionEntryId = none)
    (hexpires : l.sessionExpiresAt = some (expiryText row.expiresAt))
    (hnow : row.expiresAt = nowUnixSecs now + sessionTtlSecs)
    (hlogin : row.loginEntryId = some l.id) (hfresh : ∀ x ∈ es, x.id ≠ l.id) :
    Told now (some row) (es ++ [l]) := by
  have hlogged : Logged now (es ++ [l]) := by
    refine h.append hfresh (by simp [hlink]) (by simp [hlink]) (fun x hx => ?_)
    rw [← hnow]
    exact Nat.le_of_eq (Option.some.inj (hx.symm.trans hexpires))
  have hunlinked : ∀ r ∈ es, r.sessionEntryId ≠ some l.id := by
    intro r hr hid
    obtain ⟨x, hx, hx'⟩ := h.linked r hr l.id hid
    exact hfresh x hx hx'
  have hexpiry : expiry (es ++ [l]) l = some (expiryText row.expiresAt) := by
    rw [expiry_append_other (by simp [hlink]), expiry_of_not_linked hunlinked, hexpires]
  refine { hlogged with row := fun row' hrow' => ?_, told := fun l' hl' hact hnone => ?_ }
  · cases hrow'
    refine ⟨l, List.mem_append_right _ (List.mem_singleton_self l), hlogin, haction, hexpiry, ?_⟩
    rw [stored_append]
    rintro (⟨r, hr, -, hid⟩ | ⟨hend, -⟩)
    · exact hunlinked r hr hid
    · simp [haction] at hend
  · rcases List.mem_append.mp hl' with hl' | hl'
    · rw [stored_append] at hnone
      obtain ⟨x, hx, hpast⟩ := h.told l' hl' hact (fun hold => hnone (.inl hold))
      refine ⟨x, ?_, .inl (hpast.resolve_right (by simp))⟩
      rw [expiry_append_other (by simp [hlink]), hx]
    · cases List.mem_singleton.mp hl'
      exact ⟨_, hexpiry, .inr ⟨row, rfl, hlogin⟩⟩

/-- The row's login is renewed, with the row. -/
theorem Told.renews (h : Told now (some row) es) (haction : e.action = .passwordSet)
    (hlink : e.sessionEntryId = some login)
    (hexpires : e.sessionExpiresAt = some (expiryText row'.expiresAt))
    (hnow : row'.expiresAt = nowUnixSecs now + sessionTtlSecs)
    (hlogin : row.loginEntryId = some login) (hlogin' : row'.loginEntryId = some login)
    (hfresh : ∀ x ∈ es, x.id ≠ e.id) : Told now (some row') (es ++ [e]) := by
  obtain ⟨l₀, hl₀, hid₀, haction₀, -, hopen⟩ := h.row row rfl
  have hid₀ : l₀.id = login := Option.some.inj (hid₀.symm.trans hlogin)
  have hlogged : Logged now (es ++ [e]) := by
    refine h.append hfresh (fun login' hlink' => ?_) (by simp [haction]) (fun x hx => ?_)
    · cases hlink.symm.trans hlink'
      exact ⟨l₀, hl₀, hid₀⟩
    · rw [← hnow]
      exact Nat.le_of_eq (Option.some.inj (hx.symm.trans hexpires))
  have hstored : ∀ login, stored (es ++ [e]) login ↔ stored es login := by
    intro login
    rw [stored_append]
    simp [haction]
  refine { hlogged with row := fun row'' hrow => ?_, told := fun l hl hact hnone => ?_ }
  · cases hrow
    refine ⟨l₀, List.mem_append_left _ hl₀, hid₀ ▸ hlogin', haction₀, ?_, ?_⟩
    · refine expiry_append_renewal haction (hid₀ ▸ hlink) hexpires (fun r hr y hy => ?_)
      rw [hnow]
      exact h.bounded r hr y hy
    · rw [hstored]
      exact hopen
  · rcases List.mem_append.mp hl with hl | hl
    · by_cases hid : l.id = login
      · cases h.ids l hl l₀ hl₀ (hid.trans hid₀.symm)
        refine ⟨_, expiry_append_renewal haction (hid₀ ▸ hlink) hexpires (fun r hr y hy => ?_),
          .inr ⟨row', rfl, hid₀ ▸ hlogin'⟩⟩
        rw [hnow]
        exact h.bounded r hr y hy
      · have hother : e.sessionEntryId ≠ some l.id := by
          rw [hlink]
          exact fun heq => hid (Option.some.inj heq).symm
        obtain ⟨x, hx, hpast⟩ := h.told l hl hact (fun hold => hnone ((hstored l.id).mpr hold))
        refine ⟨x, (expiry_append_other (fun _ => hother)).trans hx, .inl (hpast.resolve_right ?_)⟩
        rintro ⟨row'', hrow, hid'⟩
        cases hrow
        exact hid (Option.some.inj (hid'.symm.trans hlogin))
    · cases List.mem_singleton.mp hl
      simp [haction] at hact

/-- A login that reads as ended is not the row's, when the row is live. -/
theorem Reads.ne_live (hreads : Reads es now s) (h : Told now (some row) es)
    (hlive : row.live now = true) (hlogin : row.loginEntryId = some login) : s.login ≠ login := by
  rintro rfl
  obtain ⟨l₀, hl₀, hid₀, -, hexpiry, hopen⟩ := h.row row rfl
  have hid₀ : l₀.id = s.login := Option.some.inj (hid₀.symm.trans hlogin)
  rcases hreads with ⟨e, he, haction, hlink, -, -⟩ | ⟨-, -, l, hl, hid, -, hexpiry', hpast⟩
  · exact hopen ⟨e, he, haction, hid₀ ▸ hlink⟩
  · cases h.ids l hl l₀ hl₀ (hid.trans hid₀.symm)
    have hat := Option.some.inj (hexpiry.symm.trans hexpiry')
    exact absurd (live_iff.mp hlive) (Nat.not_lt_of_le (hat ▸ hpast))

end

/-! What one write leaves of them. -/

section
variable {now : Nat} {db db' : Server} {accountId : Int} {reason : AuditReason} {actor : AuditActor}
  {app : Option ConnectingApp} {tokenHash : String} {row : SessionRow} {login : Int}

/-- Each end that reads in the one trail reads in the other. -/
def KeepsEnds (now : Nat) (db db' : Server) : Prop :=
  ∀ s, Reads db.history now s → Reads db'.history now s

/-- The row's login is ended, and the row with it. -/
theorem Told.recordSessionEnd (h : Told now db.session db.history) (reason : AuditReason)
    (actor : AuditActor) (hrow : db.session = some row) (hlogin : row.loginEntryId = some login) :
    Told now none (db.recordSessionEnd now login reason actor).history ∧
      ∀ s, s.login ≠ login → Reads db.history now s →
        Reads (db.recordSessionEnd now login reason actor).history now s := by
  rw [hrow] at h
  have hentry : db.HasEntry login := by
    obtain ⟨l, hl, hid, -⟩ := h.row row rfl
    exact ⟨l, hl, Option.some.inj (hid.symm.trans hlogin)⟩
  obtain ⟨e, haction, hlink, -, -, hexpires, hfresh, hhistory⟩ :=
    Server.closes_recordSessionEnd now reason actor hentry
  rw [hhistory]
  refine ⟨h.closes haction hlink hexpires hlogin (fun x hx hid => hfresh ⟨x, hx, hid⟩), ?_⟩
  intro s hne hreads
  refine hreads.append ?_
  rw [hlink]
  exact fun heq => hne (Option.some.inj heq).symm

/-- A live Session is ended and a row that ran out is left to read as it does. -/
theorem Told.endLive (h : Told now db.session db.history) (reason : AuditReason)
    (actor : AuditActor) :
    Told now none (db.endLive now reason actor).history ∧
      KeepsEnds now db (db.endLive now reason actor) := by
  unfold Server.endLive
  cases hlive : db.liveLoginEntry now with
  | none =>
    refine ⟨?_, fun s hs => hs⟩
    cases hrow : db.session with
    | none =>
      rw [hrow] at h
      exact h
    | some row =>
      rw [hrow] at h
      refine h.drops ?_
      obtain ⟨l, -, hid, -⟩ := h.row row rfl
      cases hdead : row.live now with
      | false => rfl
      | true =>
        have hsome := liveLoginEntry_eq_some.mpr ⟨row, hrow, hdead, hid⟩
        exact absurd (hlive.symm.trans hsome) (by simp)
  | some login =>
    obtain ⟨row, hrow, hlives, hlogin⟩ := liveLoginEntry_eq_some.mp hlive
    obtain ⟨htold, hkeeps⟩ := h.recordSessionEnd reason actor hrow hlogin
    refine ⟨htold, fun s hs => hkeeps s ?_ hs⟩
    rw [hrow] at h
    exact hs.ne_live h hlives hlogin

theorem Told.openSession (h : Told now db.session db.history)
    (hopen : db.openSession now accountId app tokenHash = some db') :
    Told now db'.session db'.history ∧ KeepsEnds now db db' := by
  obtain ⟨-, -, -, l, haction, hexpires, hlink, hfresh, hhistory, hsession⟩ :=
    Server.openSession_eq_some hopen
  obtain ⟨htold, hkeeps⟩ := h.endLive .replaced (loggedInAs accountId)
  rw [hsession, KeepsEnds, hhistory]
  refine ⟨htold.opens haction hlink hexpires rfl rfl (fun x hx hid => hfresh ⟨x, hx, hid⟩), ?_⟩
  exact fun s hs => (hkeeps s hs).append (by simp [hlink])

/-- A change of password while a Session is live renews it. -/
theorem Told.changePassword (h : Told now db.session db.history)
    (hchange : db.changePassword now accountId tokenHash = some db')
    (hlive : db.liveLoginEntry now = some login) :
    Told now db'.session db'.history ∧ KeepsEnds now db db' := by
  obtain ⟨-, -, -, ⟨row', hrow', -, hexpires', hid'⟩, e, haction, hlink, hexpires, hfresh, hhistory⟩ :=
    Server.changePassword_eq_some hchange
  obtain ⟨row, hrow, hlives, hlogin⟩ := liveLoginEntry_eq_some.mp hlive
  rw [hrow] at h hid'
  rw [hlive] at hlink hexpires
  rw [hrow', KeepsEnds, hhistory]
  refine ⟨h.renews haction hlink ?_ hexpires' hlogin (hid'.trans hlogin)
    (fun x hx hid => hfresh ⟨x, hx, hid⟩), fun s hs => hs.append ?_⟩
  · rw [hexpires, hexpires']
    rfl
  · rw [hlink]
    exact fun heq => hs.ne_live h hlives hlogin (Option.some.inj heq).symm

theorem Told.deleteAccount (h : Told now db.session db.history) :
    Told now (db.deleteAccount now accountId actor).session
        (db.deleteAccount now accountId actor).history ∧
      KeepsEnds now db (db.deleteAccount now accountId actor) := by
  unfold Server.deleteAccount
  cases husername : db.username with
  | none => exact ⟨h, fun s hs => hs⟩
  | some username =>
    simp only
    rw [KeepsEnds, Server.history_detach, Server.history_insert]
    obtain ⟨htold, hkeeps⟩ := h.endLive .revoked actor
    refine ⟨htold.notes rfl rfl rfl (fun x hx hid => ?_), fun s hs => (hkeeps s hs).append (by
      simp [AuditEntryRow.unowned])⟩
    exact Server.not_hasEntry_nextId (db.revokeAccountSessions now actor) ⟨x, hx, hid⟩

/-- A row that is the same but for its token and its app says the same. -/
theorem Told.relabel (h : Told now db.session db.history)
    (hrow : ∀ row', db'.session = some row' → ∃ row, db.session = some row ∧
      row'.expiresAt = row.expiresAt ∧ row'.loginEntryId = row.loginEntryId)
    (hrow' : ∀ row, db.session = some row → row.live now = true → ∃ row', db'.session = some row' ∧
      row'.loginEntryId = row.loginEntryId)
    (hhistory : db'.history = db.history) : Told now db'.session db'.history := by
  rw [hhistory]
  refine { h.toLogged with row := fun row' hr => ?_, told := fun l hl haction hnone => ?_ }
  · obtain ⟨row, hr, hexpires, hid⟩ := hrow row' hr
    rw [hexpires, hid]
    exact h.row row hr
  · obtain ⟨x, hx, hpast | ⟨row, hr, hid⟩⟩ := h.told l hl haction hnone
    · exact ⟨x, hx, .inl hpast⟩
    · refine ⟨x, hx, ?_⟩
      cases hlive : row.live now with
      | true =>
        obtain ⟨row', hr', hid'⟩ := hrow' row hr hlive
        exact .inr ⟨row', hr', hid'.trans hid⟩
      | false =>
        obtain ⟨l', hl', hid', -, hexpiry, -⟩ := h.row row hr
        cases h.ids l hl l' hl' (Option.some.inj (hid.symm.trans hid'))
        cases hx.symm.trans hexpiry
        refine .inl (Nat.le_of_not_lt fun hlt => ?_)
        exact absurd (hlive.symm.trans (live_iff.mpr hlt)) (by simp)

end

/-! Runs. -/

/-- What the trail promises of the ends it shows. -/
structure TellsOnce (w : World) : Prop where
  /-- A login reads as ended at most once. -/
  once : ∀ runs, ∀ l ∈ w.db.entries.rows, l.action = .loggedIn →
    (w.db.endsOf w.now runs l.id).length ≤ 1
  /-- An end a page has shown is the end the trail holds. -/
  stable : ∀ runs, ∀ s ∈ w.shown, w.db.endsOf w.now runs s.login = [s]
  /-- The login of the row, while it is live, reads as not ended, and no other does. -/
  live : ∀ runs, ∀ l ∈ w.db.entries.rows, l.action = .loggedIn →
    (w.db.endsOf w.now runs l.id = [] ↔
      ∃ row, w.db.session = some row ∧ row.live w.now = true ∧ row.loginEntryId = some l.id)
  /-- The row, while it is live, has its login in the trail. -/
  named : ∀ row, w.db.session = some row → row.live w.now = true →
    ∃ l ∈ w.db.entries.rows, l.action = .loggedIn ∧ row.loginEntryId = some l.id

/-- A change of password is made while the account has a live Session, or for no account; a
logout does not present the token of a Session that a page has shown as run out. -/
def Step.Heeds (source : TokenSource) (w : World) : Step → Prop
  | .changePassword i => ∀ request, w.requests[i]? = some request → w.db.username ≠ none →
      w.db.liveLoginEntry w.now ≠ none
  | .logout token => ∀ row, w.db.session = some row →
      row.tokenHash = source.hashApiToken token → row.live w.now = false →
      ∀ login, row.loginEntryId = some login → ∀ s ∈ w.shown, s.login ≠ login
  | _ => True

section
variable {source : TokenSource} {accountId : Int} {w : World} {now : Nat} {db : Server}
  {runs : List RunRow}

/-- What the row and the entries say, and the ends the pages have shown. -/
structure Recorded (source : TokenSource) (w : World) : Prop extends Minted source w where
  told : Told w.now w.db.session w.db.history
  shown : ∀ s ∈ w.shown, Reads w.db.history w.now s

theorem Recorded.initial (source : TokenSource) (username : Option String) (now : Nat) :
    Recorded source (World.initial username now) where
  toMinted := Minted.initial source username now
  told := Told.nil now
  shown _ h := absurd h List.not_mem_nil

/-- A login has at most one end: one stored, or its expiry. -/
theorem length_endsOf_le_one (h : Logged now db.history) (login : Int) :
    (db.endsOf now runs login).length ≤ 1 := by
  have hids : ∀ {f : AuditEntryRow → Option SessionEnd}, (∀ x ∈ db.entries.rows,
      ∀ y ∈ db.entries.rows, (f x).isSome = true → (f y).isSome = true → x.id = y.id) →
      (db.entries.rows.filterMap f).length ≤ 1 := fun hf =>
    Table.length_filterMap_le_one fun x hx y hy hfx hfy =>
      Table.eq_of_id_eq hx hy (hf x hx y hy hfx hfy)
  rw [endsOf_eq, List.length_append]
  cases hstored : db.storedEnd login with
  | true =>
    have hnone : db.entries.rows.filterMap (ranOutEndOf now db login) = [] := by
      rw [List.filterMap_eq_nil_iff]
      intro l _
      simp [ranOutEndOf, hstored]
    have hone := hids (f := storedEndOf login) (fun x hx y hy hfx hfy => by
      have hends : ∀ e, (storedEndOf login e).isSome = true →
          e.action = .sessionEnded ∧ e.sessionEntryId = some login := by
        intro e he
        by_contra hne
        rw [storedEndOf, if_neg hne] at he
        cases he
      have hsame := h.once x.unowned (List.mem_map_of_mem hx) y.unowned (List.mem_map_of_mem hy)
        login (hends x hfx).1 (hends x hfx).2 (hends y hfy).1 (hends y hfy).2
      have hid := congrArg AuditEntryRow.id hsame
      exact hid)
    rw [hnone]
    exact hone
  | false =>
    have hnone : db.entries.rows.filterMap (storedEndOf login) = [] := by
      rw [List.filterMap_eq_nil_iff]
      intro e he
      refine if_neg fun hend => ?_
      have hsome : db.storedEnd login = true :=
        storedEnd_iff.mpr ⟨e.unowned, List.mem_map_of_mem he, hend.1, hend.2⟩
      exact absurd (hstored.symm.trans hsome) (by simp)
    have hone := hids (f := ranOutEndOf now db login) (fun x hx y hy hfx hfy => by
      have hid : ∀ l, (ranOutEndOf now db login l).isSome = true → l.id = login := by
        intro l hl
        by_contra hne
        rw [ranOutEndOf, if_neg (fun hall => hne hall.1)] at hl
        cases hl
      exact (hid x hfx).trans (hid y hfy).symm)
    rw [hnone, List.length_nil, Nat.zero_add]
    exact hone

/-- The end a login reads as is the one end the trail holds for it. -/
theorem endsOf_of_reads {s : SessionEnd} (h : Logged now db.history)
    (hreads : Reads db.history now s) : db.endsOf now runs s.login = [s] := by
  have hmem : s ∈ db.endsOf now runs s.login := (mem_endsOf _).mpr ⟨rfl, hreads⟩
  obtain ⟨x, hx⟩ := List.length_eq_one_iff.mp
    (Nat.le_antisymm (length_endsOf_le_one h s.login) (List.length_pos_of_mem hmem))
  rw [hx] at hmem ⊢
  rw [List.mem_singleton.mp hmem]

theorem Recorded.tellsOnce (h : Recorded source w) : TellsOnce w where
  once runs l _ _ := length_endsOf_le_one h.told.toLogged l.id
  stable runs s hs := endsOf_of_reads h.told.toLogged (h.shown s hs)
  live runs l hl haction := by
    have hl' : l.unowned ∈ w.db.history := List.mem_map_of_mem hl
    constructor
    · intro hnil
      have hunread : ∀ s, s.login = l.id → ¬ Reads w.db.history w.now s := by
        intro s hlogin hreads
        have hmem : s ∈ w.db.endsOf w.now runs l.id := (mem_endsOf _).mpr ⟨hlogin, hreads⟩
        rw [hnil] at hmem
        exact absurd hmem List.not_mem_nil
      have hnone : ¬ stored w.db.history l.id := fun ⟨e, he, haction, hlink⟩ =>
        hunread ⟨l.id, e.reason, e.at_⟩ rfl (.inl ⟨e, he, haction, hlink, rfl, rfl⟩)
      obtain ⟨x, hx, hpast⟩ := h.told.told l.unowned hl' haction hnone
      have hopen : ¬ x ≤ w.now := fun hpast =>
        hunread ⟨l.id, some .expired, x⟩ rfl
          (.inr ⟨hnone, rfl, l.unowned, hl', rfl, haction, hx, hpast⟩)
      obtain ⟨row, hrow, hid⟩ := hpast.resolve_left hopen
      refine ⟨row, hrow, live_iff.mpr ?_, hid⟩
      obtain ⟨l', hl₂, hid', -, hexpiry, -⟩ := h.told.row row hrow
      cases h.told.ids l.unowned hl' l' hl₂ (Option.some.inj (hid.symm.trans hid'))
      cases hx.symm.trans hexpiry
      exact Nat.lt_of_not_le hopen
    · rintro ⟨row, hrow, hlive, hid⟩
      rw [List.eq_nil_iff_forall_not_mem]
      intro s hs
      obtain ⟨hlogin, hreads⟩ := (mem_endsOf _).mp hs
      have htold := h.told
      rw [hrow] at htold
      exact hreads.ne_live htold hlive hid hlogin
  named row hrow _ := by
    obtain ⟨l', hl', hid, haction, -⟩ := h.told.row row hrow
    obtain ⟨l, hl, rfl⟩ := List.mem_map.mp hl'
    exact ⟨l, hl, haction, hid⟩

theorem Recorded.step (h : Recorded source w) (s : Step) (hheeds : s.Heeds source w) :
    Recorded source (w.step source accountId s) := by
  have hset : ∀ {db : Server}, Told w.now db.session db.history ∧ KeepsEnds w.now w.db db →
      Told w.now db.session db.history ∧ ∀ s ∈ w.shown, Reads db.history w.now s :=
    fun hdb => ⟨hdb.1, fun s hs => hdb.2 s (h.shown s hs)⟩
  suffices hall : Told (w.step source accountId s).now (w.step source accountId s).db.session
      (w.step source accountId s).db.history ∧ ∀ e ∈ (w.step source accountId s).shown,
        Reads (w.step source accountId s).db.history (w.step source accountId s).now e by
    exact { h.toMinted.step s with told := hall.1, shown := hall.2 }
  cases s with
  | pass nanos =>
    have hlater : w.now ≤ w.now + nanos := Nat.le_add_right _ _
    exact ⟨h.told.later hlater, fun e he => (h.shown e he).later hlater⟩
  | login app =>
    rw [World.step]
    split
    · exact ⟨h.told, h.shown⟩
    · next hopen => exact hset (h.told.openSession hopen)
  | logout token =>
    simp only [World.step, Server.revokeSessionToken]
    split
    · exact ⟨h.told, h.shown⟩
    · next row hrow =>
      split
      · next hhash =>
        obtain ⟨l, -, hid, -⟩ := h.told.row row hrow
        rw [hid]
        obtain ⟨htold, hkeeps⟩ := h.told.recordSessionEnd .loggedOut
          (loggedInAs accountId) hrow hid
        refine ⟨htold, fun e he => hkeeps e ?_ (h.shown e he)⟩
        cases hlive : row.live w.now with
        | false => exact hheeds row hrow hhash hlive l.id hid e he
        | true =>
          have htold := h.told
          rw [hrow] at htold
          exact (h.shown e he).ne_live htold hlive hid
      · exact ⟨h.told, h.shown⟩
  | present token =>
    rw [World.step]
    split <;> exact ⟨h.told, h.shown⟩
  | deleteRanOut i =>
    rw [World.step]
    split
    · exact ⟨h.told, h.shown⟩
    · next hash hget =>
      have hstale := (h.stale hash (List.mem_of_getElem? hget)).2
      refine ⟨h.told.relabel (fun row' hrow' => ?_) (fun row hrow hlive => ?_) rfl, h.shown⟩
      · exact ⟨row', (Option.filter_eq_some_iff.mp hrow').1, rfl, rfl⟩
      · have hne : row.tokenHash ≠ hash := by
          intro heq
          exact absurd ((hstale row hrow heq).symm.trans hlive) (by simp)
        exact ⟨row, Option.filter_eq_some_iff.mpr ⟨hrow, by simpa using hne⟩, rfl⟩
  | recordApp i app =>
    rw [World.step]
    split
    · exact ⟨h.told, h.shown⟩
    · next request _ =>
      have hhistory := (relabel_eq request.app app w.db).2
      refine ⟨h.told.relabel (fun row' hrow' => ?_) (fun row hrow _ => ?_) hhistory, ?_⟩
      · obtain ⟨row, hrow, -, hexpires, hid⟩ := row_relabel hrow'
        exact ⟨row, hrow, hexpires, hid⟩
      · simp only [Server.recordConnectingApp]
        split
        · exact ⟨row, hrow, rfl⟩
        · exact ⟨_, congrArg (Option.map _) hrow, rfl⟩
      · simp only [hhistory]
        exact h.shown
  | changePassword i =>
    rw [World.step]
    split
    · exact ⟨h.told, h.shown⟩
    · next request hreq =>
      split
      · exact ⟨h.told, h.shown⟩
      · next db hchange =>
        obtain ⟨username, husername, -⟩ := Server.changePassword_eq_some hchange
        obtain ⟨login, hlive⟩ := Option.ne_none_iff_exists'.mp
          (hheeds request hreq (by simp [husername]))
        exact hset (h.told.changePassword hchange hlive)
  | revoke actor => exact hset (h.told.endLive .revoked actor)
  | deleteAccount actor => exact hset h.told.deleteAccount
  | createAccount username =>
    rw [World.step]
    split
    · exact ⟨h.told, h.shown⟩
    · exact ⟨h.told, h.shown⟩
  | readTrail runs scope limit offset =>
    refine ⟨h.told, fun e he => ?_⟩
    rcases List.mem_append.mp he with hnew | hold
    · exact reads_of_mem_page hnew
    · exact h.shown e hold

/-- A change of password with no live Session opens the account for a login that does not read
as open. -/
theorem Recorded.change_breaks (h : Recorded source w) {i : Nat} {request : Request}
    (hreq : w.requests[i]? = some request) (hthere : w.db.username ≠ none)
    (hlive : w.db.liveLoginEntry w.now = none) :
    ¬ TellsOnce (w.step source accountId (.changePassword i)) := by
  obtain ⟨username, husername⟩ := Option.ne_none_iff_exists'.mp hthere
  obtain ⟨db, hchange⟩ : ∃ db,
      w.db.changePassword w.now accountId (w.nextHash source) = some db := by
    simp [Server.changePassword, Server.rotate, husername]
  obtain ⟨-, -, -, ⟨row', hrow', -, hexpires, hid'⟩, e, -, hlink, -, -, hhistory⟩ :=
    Server.changePassword_eq_some hchange
  have hdb : (w.step source accountId (.changePassword i)).db = db := by
    simp only [World.step, hreq, hchange]
  have hnow : (w.step source accountId (.changePassword i)).now = w.now := by
    simp only [World.step, hreq, hchange]
  intro htells
  have hnamed := htells.named
  have hopen := htells.live
  rw [hdb, hnow] at hnamed hopen
  obtain ⟨l, hl, haction, hid⟩ := hnamed row' hrow' (live_of_fresh hexpires)
  cases hrow : w.db.session with
  | none =>
    rw [hrow] at hid'
    exact absurd (hid'.symm.trans hid) (by simp)
  | some row =>
    rw [hrow] at hid'
    obtain ⟨l₀, hl₀, hid₀, haction₀, hexpiry, hnone⟩ := h.told.row row hrow
    -- the row ran out, and its login reads so
    have hdead : ¬ row.live w.now = true := by
      intro hlives
      have hsome := liveLoginEntry_eq_some.mpr ⟨row, hrow, hlives, hid₀⟩
      exact absurd (hlive.symm.trans hsome) (by simp)
    have hpast : expiryText row.expiresAt ≤ w.now :=
      Nat.le_of_not_lt fun hlt => hdead (live_iff.mpr hlt)
    have hreads : Reads db.history w.now ⟨l₀.id, some .expired, expiryText row.expiresAt⟩ := by
      rw [hhistory]
      exact Reads.append (.inr ⟨hnone, rfl, l₀, hl₀, rfl, haction₀, hexpiry, hpast⟩)
        (by simp [hlink, hlive])
    have heq : l₀.id = l.id := Option.some.inj (hid₀.symm.trans (hid'.symm.trans hid))
    have hmem := (mem_endsOf []).mpr ⟨heq, hreads⟩
    rw [(hopen [] l hl haction).mpr ⟨row', hrow', live_of_fresh hexpires, hid⟩] at hmem
    exact absurd hmem List.not_mem_nil

/-- A logout of a Session shown as run out stores another end of it. -/
theorem Recorded.logout_breaks (h : Recorded source w) {token : String} {row : SessionRow}
    {login : Int} {s : SessionEnd} (hrow : w.db.session = some row)
    (hhash : row.tokenHash = source.hashApiToken token) (hlogin : row.loginEntryId = some login)
    (hs : s ∈ w.shown) (hshown : s.login = login) :
    ¬ TellsOnce (w.step source accountId (.logout token)) := by
  subst hshown
  obtain ⟨l₀, hl₀, hid₀, -, -, hnone⟩ := h.told.row row hrow
  have hid₀ : l₀.id = s.login := Option.some.inj (hid₀.symm.trans hlogin)
  have hexpired : s.reason = some .expired := by
    rcases h.shown s hs with ⟨e, he, haction, hlink, -⟩ | ⟨-, hreason, -⟩
    · exact absurd ⟨e, he, haction, hid₀ ▸ hlink⟩ hnone
    · exact hreason
  obtain ⟨e, haction, hlink, hreason, -, -, -, hhistory⟩ :=
    Server.closes_recordSessionEnd w.now .loggedOut (loggedInAs accountId)
      (show w.db.HasEntry s.login from ⟨l₀, hl₀, hid₀⟩)
  have hdb : (w.step source accountId (.logout token)).db.history = w.db.history ++ [e] := by
    rw [← hhistory]
    simp only [World.step, Server.revokeSessionToken, hrow, hhash, if_true, hlogin]
    rfl
  intro htells
  have hreads : Reads (w.step source accountId (.logout token)).db.history
      (w.step source accountId (.logout token)).now ⟨s.login, e.reason, e.at_⟩ :=
    .inl ⟨e, by simp [hdb], haction, hlink, rfl, rfl⟩
  have hmem := (mem_endsOf []).mpr ⟨rfl, hreads⟩
  rw [htells.stable [] s hs] at hmem
  have hsame := congrArg SessionEnd.reason (List.mem_singleton.mp hmem)
  rw [hexpired] at hsame
  exact absurd (hreason.symm.trans hsame) (by simp)

theorem Recorded.breaks (h : Recorded source w) (s : Step) (hheeds : ¬ s.Heeds source w) :
    ¬ TellsOnce (w.step source accountId s) := by
  cases s with
  | changePassword i =>
    simp only [Step.Heeds, not_forall, not_not] at hheeds
    obtain ⟨request, hreq, hthere, hlive⟩ := hheeds
    exact h.change_breaks hreq hthere hlive
  | logout token =>
    simp only [Step.Heeds, not_forall, not_not] at hheeds
    obtain ⟨row, hrow, hhash, -, login, hlogin, s, hs, hshown⟩ := hheeds
    exact h.logout_breaks hrow hhash hlogin hs hshown
  | _ => exact absurd trivial hheeds

end

/-- **In every state a run reaches each login reads as ended at most once, an end a page has
shown is the one the trail holds, and the login of the live Session alone reads as not ended,
exactly when in the run no password is changed while the account has no live Session and
nobody logs out with the token of a Session that a page has shown as run out.** -/
theorem trail_tells_each_end_once_iff (source : TokenSource) (accountId : Int)
    (username : Option String) (now : Nat) (steps : List Step) :
    (∀ pre post, steps = pre ++ post →
      TellsOnce (World.run source accountId pre (World.initial username now))) ↔
    ∀ pre s post, steps = pre ++ s :: post →
      s.Heeds source (World.run source accountId pre (World.initial username now)) :=
  safe_iff_meets (Recorded.initial source username now) (fun _ h => h.tellsOnce)
    (fun _ s h hheeds => h.step s hheeds) (fun _ s h hlate => h.breaks s hlate) steps

/-- A login, its thirty days, a page of the trail, and a logout with the token that ran out. -/
def logoutAfterExpiry : List Step :=
  [.login none, .pass (sessionTtlSecs * nanosPerSec), .readTrail [] none 10 0, .logout ""]

/-- The page shows the Session as expired; after the logout the trail holds it as logged out. -/
theorem logout_after_expiry_retells :
    ¬ TellsOnce (World.run tokensByLength 7 logoutAfterExpiry (World.initial (some "ada") 0)) := by
  intro htells
  have hshown : (World.run tokensByLength 7 logoutAfterExpiry
      (World.initial (some "ada") 0)).shown = [⟨1, some .expired, sessionTtlSecs * nanosPerSec⟩] := by
    decide +kernel
  have hstable := htells.stable [] ⟨1, some .expired, sessionTtlSecs * nanosPerSec⟩ (by simp [hshown])
  revert hstable
  decide +kernel

end MessageCrate.Sessions

import MessageCrate.Lib.Runs
import MessageCrate.Server.Tokens

/- One Session an account, and none that ended carries on.

   A change of password writes the account's row, whoever's row that has become since the
   request's token was looked up. Each step is followed with whose it leaves the row, the
   tokens and the requests (`Owned`): as long as no change is made for a Session that has ended meanwhile, the row
   that is live belongs to a Session that has not ended, and a token opens the row only of
   the Session that asked for it.

   What is proved:
     1. `Orderly.step`: the invariant, kept by every step that is `InTime`.
     2. `stale_change_opens`: a change that is not gives an ended Session a token that opens.
     3. `no_session_carries_on_iff`: so the runs that are safe are those whose changes are all
        in time. -/
namespace MessageCrate.Sessions
open SqlTable Runs Sessions.World

/-- What an account's Sessions promise. -/
structure OneAtATime (source : TokenSource) (w : World) : Prop where
  /-- At most one token opens the account. -/
  one : ∀ i ∈ w.issued, ∀ j ∈ w.issued, w.Authenticates source i.token →
    w.Authenticates source j.token → i.token = j.token
  /-- No token asked for by a Session that ended opens it. -/
  none_ended : ∀ i ∈ w.issued, ∀ login ∈ w.ended, i.askedBy = some login →
    ¬ w.Authenticates source i.token
  /-- A token was issued to the Session that was the account's. -/
  current : ∀ i ∈ w.issued, i.current = i.askedBy

/-- A change of password is in time when the Session that asked for it has not ended since
its token was looked up. Where there is no account any more, nothing is changed. -/
def Step.InTime (w : World) : Step → Prop
  | .changePassword i => ∀ request, w.requests[i]? = some request → w.db.username ≠ none →
      ∀ login, request.login = some login → login ∉ w.ended
  | _ => True

/-! The invariant. -/

section
variable {source : TokenSource} {accountId : Int} {w w' : World} {token : String} {row : SessionRow}
  {now : Nat} {db : Server} {login : Int}

/-- Whose the row, the tokens and the requests are. -/
structure Owned (source : TokenSource) (w : World) : Prop where
  row : ∀ row, w.db.session = some row → ∃ login, row.loginEntryId = some login ∧
    w.db.HasEntry login ∧ (row.live w.now = true → login ∉ w.ended)
  generated : ∀ i ∈ w.issued, ∃ n < w.generated, i.token = source.generate n
  /-- A token opens the row only of the Session that asked for it. -/
  holder : ∀ i ∈ w.issued, ∀ row, w.db.session = some row →
    row.tokenHash = source.hashApiToken i.token → i.askedBy = row.loginEntryId
  current : ∀ i ∈ w.issued, i.current = i.askedBy
  /-- A request's Session has ended, or is the account's. -/
  asked : ∀ r ∈ w.requests, ∃ login, r.login = some login ∧
    (login ∈ w.ended ∨ w.db.liveLoginEntry w.now = some login)
  known : ∀ login ∈ w.ended, w.db.HasEntry login

structure Orderly (source : TokenSource) (w : World) : Prop extends
    Minted source w, Owned source w

theorem Orderly.initial (source : TokenSource) (username : Option String) (now : Nat) :
    Orderly source (World.initial username now) where
  toMinted := Minted.initial source username now
  toOwned := {
    row _ h := nomatch h
    generated _ h := absurd h List.not_mem_nil
    holder _ h := absurd h List.not_mem_nil
    current _ h := absurd h List.not_mem_nil
    asked _ h := absurd h List.not_mem_nil
    known _ h := absurd h List.not_mem_nil }

theorem Orderly.oneAtATime (h : Orderly source w) : OneAtATime source w where
  one i hi j hj hauth hauth' := by
    obtain ⟨n, -, hn⟩ := h.generated i hi
    obtain ⟨m, -, hm⟩ := h.generated j hj
    obtain ⟨row, hrow, hhash, -⟩ := authenticates_iff.mp hauth
    obtain ⟨row', hrow', hhash', -⟩ := authenticates_iff.mp hauth'
    cases hrow.symm.trans hrow'
    have hsame : source.hashApiToken (source.generate n) =
        source.hashApiToken (source.generate m) := by
      rw [← hn, ← hm]
      exact hhash.symm.trans hhash'
    rw [hn, hm, source.distinct n m hsame]
  none_ended i hi login hlogin hasked hauth := by
    obtain ⟨row, hrow, hhash, hlive⟩ := authenticates_iff.mp hauth
    obtain ⟨login', hlogin', -, hopen⟩ := h.row row hrow
    have heq : some login = some login' := by
      rw [← hasked, ← hlogin']
      exact h.holder i hi row hrow hhash
    cases heq
    exact hopen hlive hlogin
  current := h.current

/-- The login in the row is a login the trail has. -/
theorem Owned.hasEntry_rowLogin (h : Owned source w) (hlogin : rowLogin w.db = some login) :
    w.db.HasEntry login := by
  obtain ⟨row, hrow, hid⟩ := Option.bind_eq_some_iff.mp hlogin
  obtain ⟨login', hlogin', hentry, -⟩ := h.row row hrow
  cases hid.symm.trans hlogin'
  exact hentry

/-- The row goes, and a live Session with it. -/
theorem Owned.closed (h : Owned source w) {db : Server} {ended : List Int}
    (hsession : db.session = none) (hgrows : w.db.history <+: db.history)
    (hkept : ∀ login ∈ w.ended, login ∈ ended)
    (hlive : ∀ login, w.db.liveLoginEntry w.now = some login → login ∈ ended)
    (hfrom : ∀ login ∈ ended, login ∈ w.ended ∨ rowLogin w.db = some login) :
    Owned source { w with db := db, ended := ended } where
  row _ hrow := absurd (hsession.symm.trans hrow) (by simp)
  generated := h.generated
  holder _ _ _ hrow := absurd (hsession.symm.trans hrow) (by simp)
  current := h.current
  asked r hr := by
    obtain ⟨login, hlogin, hold⟩ := h.asked r hr
    exact ⟨login, hlogin, .inl (hold.elim (hkept login) (hlive login))⟩
  known login hlogin := by
    rcases hfrom login hlogin with hold | hrow
    · exact (h.known login hold).mono hgrows
    · exact (h.hasEntry_rowLogin hrow).mono hgrows

/-- The live Session is the row's. -/
theorem rowLogin_of_liveLoginEntry (h : db.liveLoginEntry now = some login) :
    rowLogin db = some login := by
  obtain ⟨row, hrow, -, hid⟩ := liveLoginEntry_eq_some.mp h
  rw [rowLogin, hrow]
  exact hid

/-- The row goes, and its Session with it. -/
theorem Owned.ends (h : Owned source w) {db : Server} (hsession : db.session = none)
    (hgrows : w.db.history <+: db.history) :
    Owned source { w with db := db, ended := (rowLogin w.db).toList ++ w.ended } := by
  refine h.closed hsession hgrows (fun login hlogin => List.mem_append_right _ hlogin)
    (fun login hlive => List.mem_append_left _ ?_) (fun login hlogin => ?_)
  · rw [rowLogin_of_liveLoginEntry hlive]
    exact List.mem_singleton_self login
  · rcases List.mem_append.mp hlogin with hrow | hold
    · exact .inr (Option.mem_toList.mp hrow)
    · exact .inl hold

/-- Time passes; a Session whose expiry it passes has ended. -/
theorem Owned.pass (h : Owned source w) (nanos : Nat) :
    Owned source (w.step source accountId (.pass nanos)) := by
  have hlater : w.now ≤ w.now + nanos := Nat.le_add_right _ _
  have hran : ∀ login, login ∈ ((w.db.session.filter (fun row => !row.live (w.now + nanos))).bind
      (fun row => row.loginEntryId)).toList ↔
        ∃ row, w.db.session = some row ∧ row.live (w.now + nanos) = false ∧
          row.loginEntryId = some login := by
    intro login
    rw [Option.mem_toList, Option.bind_eq_some_iff]
    simp only [Option.filter_eq_some_iff, Bool.not_eq_true']
    constructor
    · rintro ⟨row, ⟨hrow, hdead⟩, hid⟩
      exact ⟨row, hrow, hdead, hid⟩
    · rintro ⟨row, hrow, hdead, hid⟩
      exact ⟨row, ⟨hrow, hdead⟩, hid⟩
  refine ⟨fun row hrow => ?_, h.generated, h.holder, h.current, fun r hr => ?_,
    fun login hlogin => ?_⟩
  · obtain ⟨login, hlogin, hentry, hopen⟩ := h.row row hrow
    refine ⟨login, hlogin, hentry, fun hlive hmem => ?_⟩
    rcases List.mem_append.mp hmem with hnew | hold
    · obtain ⟨row', hrow', hdead, -⟩ := (hran login).mp hnew
      cases hrow.symm.trans hrow'
      exact absurd (hdead.symm.trans hlive) (by simp)
    · exact hopen (live_mono hlater hlive) hold
  · obtain ⟨login, hlogin, hold⟩ := h.asked r hr
    refine ⟨login, hlogin, ?_⟩
    rcases hold with hended | hlive
    · exact .inl (List.mem_append_right _ hended)
    · obtain ⟨row, hrow, -, hid⟩ := liveLoginEntry_eq_some.mp hlive
      cases hlast : row.live (w.now + nanos) with
      | true => exact .inr (liveLoginEntry_eq_some.mpr ⟨row, hrow, hlast, hid⟩)
      | false => exact .inl (List.mem_append_left _ ((hran login).mpr ⟨row, hrow, hlast, hid⟩))
  · rcases List.mem_append.mp hlogin with hnew | hold
    · obtain ⟨row, hrow, -, hid⟩ := (hran login).mp hnew
      refine h.hasEntry_rowLogin ?_
      rw [rowLogin, hrow]
      exact hid
    · exact h.known login hold

/-- The tokens given out, when the next one goes to a client. -/
theorem Owned.generated_cons (h : Owned source w) {i : Issue} (hi : i.token = w.nextToken source) :
    ∀ j ∈ i :: w.issued, ∃ n < w.generated + 1, j.token = source.generate n := by
  intro j hj
  rcases List.mem_cons.mp hj with rfl | hj
  · exact ⟨w.generated, Nat.lt_succ_self _, hi⟩
  · obtain ⟨n, hn, htoken⟩ := h.generated j hj
    exact ⟨n, Nat.lt_succ_of_lt hn, htoken⟩

/-- A row with the next token is of the Session the token was issued to. -/
theorem Owned.holder_cons (h : Owned source w) {i : Issue} (row : SessionRow)
    (hhash : row.tokenHash = w.nextHash source) (hid : i.askedBy = row.loginEntryId) :
    ∀ j ∈ i :: w.issued, row.tokenHash = source.hashApiToken j.token →
      j.askedBy = row.loginEntryId := by
  intro j hj htoken
  rcases List.mem_cons.mp hj with rfl | hj
  · exact hid
  · obtain ⟨n, hn, hgen⟩ := h.generated j hj
    refine absurd (htoken.symm.trans hhash) (ne_nextHash ⟨n, hn, ?_⟩)
    rw [hgen]

/-- A login's row is its Session's; the Session that was there has ended. -/
theorem Owned.opens (h : Owned source w) (app : Option ConnectingApp) :
    Owned source (w.step source accountId (.login app)) := by
  rw [World.step]
  cases hopen : w.db.openSession w.now accountId app (w.nextHash source) with
  | none => exact h
  | some db =>
    obtain ⟨username, -, -, l, -, -, -, hfresh, hhistory, hsession⟩ :=
      Server.openSession_eq_some hopen
    have hgrows : w.db.history <+: db.history :=
      hhistory ▸ Server.prefix_endLive.trans (List.prefix_append _ _)
    have hnew : rowLogin db = some l.id := by rw [rowLogin, hsession]; rfl
    have hold : ∀ login, w.db.HasEntry login → login ≠ l.id := by
      rintro login hentry rfl
      exact hfresh (hentry.mono Server.prefix_endLive)
    have hended : ∀ login ∈ (rowLogin w.db).toList ++ w.ended, w.db.HasEntry login := by
      intro login hlogin
      rcases List.mem_append.mp hlogin with hrow | hold
      · exact h.hasEntry_rowLogin (Option.mem_toList.mp hrow)
      · exact h.known login hold
    refine ⟨fun row hr => ?_, h.generated_cons rfl, fun i hi row hr => ?_, fun i hi => ?_,
      fun r hr => ?_, fun login hlogin => (hended login hlogin).mono hgrows⟩
    · cases hsession.symm.trans hr
      refine ⟨l.id, rfl, ⟨l, ?_, rfl⟩, fun _ hmem => hold l.id (hended l.id hmem) rfl⟩
      rw [hhistory]
      exact List.mem_append_right _ (List.mem_singleton_self l)
    · cases hsession.symm.trans hr
      exact h.holder_cons _ rfl hnew i hi
    · rcases List.mem_cons.mp hi with rfl | hi
      · rfl
      · exact h.current i hi
    · obtain ⟨login, hlogin, hwhere⟩ := h.asked r hr
      refine ⟨login, hlogin, .inl ?_⟩
      rcases hwhere with hend | hlive
      · exact List.mem_append_right _ hend
      · exact List.mem_append_left _ (Option.mem_toList.mpr (rowLogin_of_liveLoginEntry hlive))

/-- A change of password in time renews the Session that asked for it. -/
theorem Owned.renews (h : Owned source w) (i : Nat) (htime : Step.InTime w (.changePassword i)) :
    Owned source (w.step source accountId (.changePassword i)) := by
  rw [World.step]
  cases hreq : w.requests[i]? with
  | none => exact h
  | some request =>
    have hless : ∀ r ∈ w.requests.eraseIdx i, r ∈ w.requests := fun r => List.mem_of_mem_eraseIdx
    simp only
    cases hchange : w.db.changePassword w.now accountId (w.nextHash source) with
    | none => exact { h with asked := fun r hr => h.asked r (hless r hr) }
    | some db =>
      obtain ⟨username, husername, -, ⟨row, hrow, hhash, hexpires, hid⟩, e, -, -, -, -,
        hhistory⟩ := Server.changePassword_eq_some hchange
      have hgrows : w.db.history <+: db.history := hhistory ▸ List.prefix_append _ _
      -- the Session that asked is the account's
      obtain ⟨login, hlogin, hwhere⟩ := h.asked request (List.mem_of_getElem? hreq)
      have hopen : login ∉ w.ended := htime request hreq (by simp [husername]) login hlogin
      have hlive : w.db.liveLoginEntry w.now = some login := hwhere.resolve_left hopen
      have hid : row.loginEntryId = some login := hid.trans (rowLogin_of_liveLoginEntry hlive)
      have hnow : db.liveLoginEntry w.now = some login :=
        liveLoginEntry_eq_some.mpr ⟨row, hrow, live_of_fresh hexpires, hid⟩
      refine ⟨fun row' hr => ?_, h.generated_cons rfl, fun i hi row' hr => ?_, fun i hi => ?_,
        fun r hr => ?_, fun login hlogin => (h.known login hlogin).mono hgrows⟩
      · cases hrow.symm.trans hr
        exact ⟨login, hid, (h.hasEntry_rowLogin (rowLogin_of_liveLoginEntry hlive)).mono hgrows,
          fun _ => hopen⟩
      · cases hrow.symm.trans hr
        exact h.holder_cons row hhash (hlogin.trans hid.symm) i hi
      · rcases List.mem_cons.mp hi with rfl | hi
        · exact hlive.trans hlogin.symm
        · exact h.current i hi
      · obtain ⟨login', hlogin', hwhere'⟩ := h.asked r (hless r hr)
        refine ⟨login', hlogin', hwhere'.imp_right fun hlive' => ?_⟩
        cases hlive.symm.trans hlive'
        exact hnow

/-- A step that leaves the row's token, expiry and login. -/
theorem Owned.relabel (h : Owned source w) (known : Option ConnectingApp) (app : ConnectingApp) :
    Owned source { w with db := w.db.recordConnectingApp known app } := by
  have hentry : ∀ login, w.db.HasEntry login →
      (w.db.recordConnectingApp known app).HasEntry login :=
    fun login hl => hl.mono ((relabel_eq known app w.db).2 ▸ List.prefix_rfl)
  refine ⟨fun row' hr => ?_, h.generated, fun i hi row' hr hhash => ?_, h.current, fun r hr => ?_,
    fun login hlogin => hentry login (h.known login hlogin)⟩
  · obtain ⟨row, hrow, -, hexpires, hid⟩ := row_relabel hr
    obtain ⟨login, hlogin, hl, hopen⟩ := h.row row hrow
    exact ⟨login, hid.trans hlogin, hentry login hl,
      fun hlive => hopen ((live_congr hexpires).symm.trans hlive)⟩
  · obtain ⟨row, hrow, htoken, -, hid⟩ := row_relabel hr
    exact (h.holder i hi row hrow (htoken.symm.trans hhash)).trans hid.symm
  · obtain ⟨login, hlogin, hwhere⟩ := h.asked r hr
    refine ⟨login, hlogin, hwhere.imp_right fun hlive => ?_⟩
    rw [← hlive]
    unfold Server.recordConnectingApp
    split
    · rfl
    · simp only [Server.liveLoginEntry]
      cases w.db.session <;> rfl

/-- Logging out ends the Session whose token it presents, and no other. -/
theorem Owned.logsOut (h : Owned source w) (token : String) :
    Owned source (w.step source accountId (.logout token)) := by
  by_cases hrow : ∃ row, w.db.session = some row ∧ row.tokenHash = source.hashApiToken token
  · obtain ⟨row, hsession, hhash⟩ := hrow
    have hnone : (w.db.revokeSessionToken w.now accountId
        (source.hashApiToken token)).session = none := by
      simp [Server.revokeSessionToken, hsession, hhash]
    have hgrows : w.db.history <+: (w.db.revokeSessionToken w.now accountId
        (source.hashApiToken token)).history := by
      unfold Server.revokeSessionToken
      rw [hsession]
      simp only [hhash, if_true]
      cases row.loginEntryId with
      | none => exact List.prefix_rfl
      | some login => exact Server.prefix_recordSessionEnd
    simp only [World.step, hnone, if_true]
    exact h.ends hnone hgrows
  · have hdb : w.db.revokeSessionToken w.now accountId (source.hashApiToken token) = w.db := by
      unfold Server.revokeSessionToken
      split
      · rfl
      · next row hsession => exact if_neg (fun hhash => hrow ⟨row, hsession, hhash⟩)
    rw [World.step, hdb]
    split
    · next hnone =>
      simp only [rowLogin, hnone, Option.bind_none, Option.toList_none, List.nil_append]
      exact h
    · exact h

theorem Orderly.owned_step (h : Orderly source w) (s : Step) (htime : s.InTime w) :
    Owned source (w.step source accountId s) := by
  cases s with
  | pass nanos => exact h.toOwned.pass nanos
  | login app => exact h.toOwned.opens app
  | logout token => exact h.toOwned.logsOut token
  | present token =>
    rw [World.step]
    split
    · exact h.toOwned
    · exact { h.toOwned with }
    · next app login hfound =>
      obtain ⟨row, hrow, -, hlive, -, hid⟩ := lookupSession_eq_live.mp hfound
      refine { h.toOwned with asked := fun r hr => ?_ }
      rcases List.mem_append.mp hr with hr | hr
      · exact h.asked r hr
      · obtain rfl := List.mem_singleton.mp hr
        obtain ⟨login', hlogin', -, -⟩ := h.row row hrow
        refine ⟨login', hid.symm.trans hlogin', .inr ?_⟩
        exact liveLoginEntry_eq_some.mpr ⟨row, hrow, hlive, hlogin'⟩
  | deleteRanOut i =>
    rw [World.step]
    split
    · exact h.toOwned
    · next hash hget =>
      have hdb : Owned source { w with db := w.db.deleteToken hash } := by
        by_cases hrow : ∀ row, w.db.session = some row → row.tokenHash ≠ hash
        · rw [deleteToken_of_ne hrow]
          exact h.toOwned
        · -- a row that ran out: its Session has ended already
          push Not at hrow
          obtain ⟨row, hsession, heq⟩ := hrow
          have hdead := (h.stale hash (List.mem_of_getElem? hget)).2 row hsession heq
          refine h.toOwned.closed ?_ List.prefix_rfl (fun login hlogin => hlogin)
            (fun login hlive => ?_) (fun login hlogin => .inl hlogin)
          · simp [Server.deleteToken, hsession, heq]
          · obtain ⟨row', hrow', hlive', -⟩ := liveLoginEntry_eq_some.mp hlive
            cases hsession.symm.trans hrow'
            exact absurd (hdead.symm.trans hlive') (by simp)
      exact { hdb with }
  | recordApp i app =>
    rw [World.step]
    split
    · exact h.toOwned
    · next request _ => exact h.toOwned.relabel request.app app
  | changePassword i => exact h.toOwned.renews i htime
  | revoke actor => exact h.toOwned.ends rfl Server.prefix_endLive
  | deleteAccount actor =>
    rw [World.step]
    cases husername : w.db.username with
    | none =>
      have hsession : w.db.session = none := by
        by_contra hne
        exact h.account hne husername
      have hsame : w.db.deleteAccount w.now accountId actor = w.db := by
        simp [Server.deleteAccount, husername]
      rw [hsame]
      exact h.toOwned.ends hsession List.prefix_rfl
    | some username =>
      refine h.toOwned.ends ?_ ?_
      · simp [Server.deleteAccount, husername]
      · unfold Server.deleteAccount
        rw [husername]
        simp only
        rw [Server.history_detach, Server.history_insert]
        exact Server.prefix_endLive.trans (List.prefix_append _ _)
  | createAccount username =>
    rw [World.step]
    split
    · exact h.toOwned
    · exact { h.toOwned with }
  | readTrail runs scope limit offset => exact { h.toOwned with }

theorem Orderly.step (h : Orderly source w) (s : Step) (htime : s.InTime w) :
    Orderly source (w.step source accountId s) where
  toMinted := h.toMinted.step s
  toOwned := h.owned_step s htime

/-- A change made for a Session that has ended gives it a token that opens the account. -/
theorem stale_change_opens (s : Step) (h : ¬ s.InTime w) :
    ¬ OneAtATime source (w.step source accountId s) := by
  cases s with
  | changePassword i =>
    simp only [Step.InTime, not_forall, not_not] at h
    obtain ⟨request, hreq, hthere, login, hlogin, hended⟩ := h
    obtain ⟨username, husername⟩ := Option.ne_none_iff_exists'.mp hthere
    obtain ⟨db, hchange⟩ : ∃ db,
        w.db.changePassword w.now accountId (w.nextHash source) = some db := by
      simp [Server.changePassword, Server.rotate, husername]
    obtain ⟨-, -, -, ⟨row, hrow, hhash, hexpires, -⟩, -⟩ := Server.changePassword_eq_some hchange
    have hstep : w.step source accountId (.changePassword i) =
        { w with
          db := db
          generated := w.generated + 1
          requests := w.requests.eraseIdx i
          issued := ⟨w.nextToken source, request.login, w.db.liveLoginEntry w.now⟩ :: w.issued } := by
      simp only [World.step, hreq, hchange]
    rw [hstep]
    intro hsafe
    refine hsafe.none_ended _ (List.mem_cons_self ..) login hended hlogin ?_
    exact authenticates_iff.mpr ⟨row, hrow, hhash, live_of_fresh hexpires⟩
  | _ => exact absurd trivial h

end

/-- **In every state a run reaches the account has at most one token that opens it, none
opens it for a Session that ended, and each was issued to the account's own Session, exactly
when every change of password in the run is made for a Session that has not ended since its
token was looked up.** -/
theorem no_session_carries_on_iff (source : TokenSource) (accountId : Int)
    (username : Option String) (now : Nat) (steps : List Step) :
    (∀ pre post, steps = pre ++ post →
      OneAtATime source (World.run source accountId pre (World.initial username now))) ↔
    ∀ pre s post, steps = pre ++ s :: post →
      s.InTime (World.run source accountId pre (World.initial username now)) :=
  safe_iff_meets (Orderly.initial source username now) (fun _ h => h.oneAtATime)
    (fun _ s h htime => h.step s htime) (fun _ s _ hlate => stale_change_opens s hlate) steps

/-- A login, a request, a logout, and the request's change of password. -/
def changeAfterLogout : List Step := [.login none, .present "", .logout "", .changePassword 0]

/-- The logged-out Session's change of password gets a token that opens the account. -/
theorem change_after_logout_opens :
    ¬ OneAtATime tokensByLength
      (World.run tokensByLength 7 changeAfterLogout (World.initial (some "ada") 0)) := by
  let w := World.run tokensByLength 7 [.login none, .present "", .logout ""]
    (World.initial (some "ada") 0)
  change ¬ OneAtATime tokensByLength (w.step tokensByLength 7 (.changePassword 0))
  refine stale_change_opens (.changePassword 0) (fun htime => ?_)
  refine htime ⟨none, some 1⟩ ?_ ?_ 1 rfl ?_
  · decide +kernel
  · decide +kernel
  · decide +kernel

end MessageCrate.Sessions

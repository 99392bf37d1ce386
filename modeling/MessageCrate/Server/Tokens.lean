import MessageCrate.Server.Sessions

/- The token in the account's row, through each step.

   A row's token is the last the source gave out, so a fingerprint found run out is never that
   of a row that is live later (`Minted`): the delete that follows such a look hits a row that
   ran out, or none. -/
namespace MessageCrate.Sessions
open SqlTable Sessions.World

/-! What a look at the row says. -/

section
variable {source : TokenSource} {accountId : Int} {w w' : World} {token : String} {row : SessionRow}
  {now : Nat} {db : Server} {login : Int}

theorem lookupSession_eq_live {tokenHash : String} {app : Option ConnectingApp}
    {login : Option Int} : db.lookupSession now tokenHash = .live app login ↔
    ∃ row, db.session = some row ∧ row.tokenHash = tokenHash ∧ row.live now = true ∧
      row.app = app ∧ row.loginEntryId = login := by
  unfold Server.lookupSession
  cases hsession : db.session with
  | none => simp
  | some row =>
    by_cases hhash : row.tokenHash = tokenHash
    · cases hlive : row.live now <;> simp [hhash, hlive]
    · simp [hhash]

theorem lookupSession_eq_ranOut {tokenHash : String} :
    db.lookupSession now tokenHash = .ranOut ↔
    ∃ row, db.session = some row ∧ row.tokenHash = tokenHash ∧ row.live now = false := by
  unfold Server.lookupSession
  cases hsession : db.session with
  | none => simp
  | some row =>
    by_cases hhash : row.tokenHash = tokenHash
    · cases hlive : row.live now <;> simp [hhash, hlive]
    · simp [hhash]

theorem authenticates_iff : w.Authenticates source token ↔
    ∃ row, w.db.session = some row ∧ row.tokenHash = source.hashApiToken token ∧
      row.live w.now = true := by
  constructor
  · rintro ⟨app, login, h⟩
    obtain ⟨row, hrow, hhash, hlive, -, -⟩ := lookupSession_eq_live.mp h
    exact ⟨row, hrow, hhash, hlive⟩
  · rintro ⟨row, hrow, hhash, hlive⟩
    exact ⟨_, _, lookupSession_eq_live.mpr ⟨row, hrow, hhash, hlive, rfl, rfl⟩⟩

theorem liveLoginEntry_eq_some : db.liveLoginEntry now = some login ↔
    ∃ row, db.session = some row ∧ row.live now = true ∧ row.loginEntryId = some login := by
  unfold Server.liveLoginEntry
  cases hsession : db.session with
  | none => simp
  | some row => simp [Option.filter_eq_some_iff, and_comm]

theorem deleteToken_of_ne {hash : String}
    (h : ∀ row, db.session = some row → row.tokenHash ≠ hash) : db.deleteToken hash = db := by
  have hsession : db.session.filter (fun row => row.tokenHash ≠ hash) = db.session := by
    cases hrow : db.session with
    | none => rfl
    | some row => simp [Option.filter, h row hrow]
  rw [Server.deleteToken, hsession]

/-- A row that lasts until later lasts until now. -/
theorem live_mono {now' : Nat} (hle : now ≤ now') (h : row.live now' = true) :
    row.live now = true := by
  simp only [SessionRow.live, nowUnixSecs, gt_iff_lt, decide_eq_true_eq] at h ⊢
  exact Nat.lt_of_le_of_lt (Nat.div_le_div_right hle) h

/-- A row made now is live. -/
theorem live_of_fresh (h : row.expiresAt = nowUnixSecs now + sessionTtlSecs) :
    row.live now = true := by
  rw [SessionRow.live, h]
  simp [sessionTtlSecs]

theorem relabel_eq (known : Option ConnectingApp) (app : ConnectingApp) (db : Server) :
    (db.recordConnectingApp known app).username = db.username ∧
      (db.recordConnectingApp known app).history = db.history := by
  unfold Server.recordConnectingApp
  split
  · exact ⟨rfl, rfl⟩
  · exact ⟨rfl, rfl⟩

/-- The row's app changes, and nothing else of it. -/
theorem row_relabel {known : Option ConnectingApp} {app : ConnectingApp} {row' : SessionRow}
    (h : (db.recordConnectingApp known app).session = some row') :
    ∃ row, db.session = some row ∧ row'.tokenHash = row.tokenHash ∧
      row'.expiresAt = row.expiresAt ∧ row'.loginEntryId = row.loginEntryId := by
  unfold Server.recordConnectingApp at h
  split at h
  · exact ⟨row', h, rfl, rfl, rfl⟩
  · obtain ⟨row, hrow, rfl⟩ := Option.map_eq_some_iff.mp h
    exact ⟨row, hrow, rfl, rfl, rfl⟩

theorem live_congr {row' : SessionRow} (h : row'.expiresAt = row.expiresAt) :
    row'.live now = row.live now := by
  rw [SessionRow.live, SessionRow.live, h]

/-! What one step does to the row. -/

/-- The row a step leaves is the one there was but for its app, or holds the next token. -/
def RowKept (source : TokenSource) (w w' : World) : Prop :=
  ∀ row', w'.db.session = some row' →
    (∃ row, w.db.session = some row ∧ row'.tokenHash = row.tokenHash ∧
      row'.expiresAt = row.expiresAt ∧ row'.loginEntryId = row.loginEntryId) ∨
    row'.tokenHash = w.nextHash source ∧ w'.generated = w.generated + 1

theorem RowKept.of_eq (h : ∀ row', w'.db.session = some row' → w.db.session = some row') :
    RowKept source w w' :=
  fun row' hrow' => .inl ⟨row', h row' hrow', rfl, rfl, rfl⟩

theorem rowKept_step (w : World) (s : Step) : RowKept source w (w.step source accountId s) := by
  cases s with
  | pass nanos => exact RowKept.of_eq fun _ h => h
  | login app =>
    rw [World.step]
    cases hopen : w.db.openSession w.now accountId app (w.nextHash source) with
    | none => exact RowKept.of_eq fun _ h => h
    | some db =>
      obtain ⟨-, -, -, l, -, -, -, -, -, hsession⟩ := Server.openSession_eq_some hopen
      intro row' hrow'
      cases hsession.symm.trans hrow'
      exact .inr ⟨rfl, rfl⟩
  | logout token =>
    refine RowKept.of_eq fun row' hrow' => ?_
    rw [World.step] at hrow'
    simp only [Server.revokeSessionToken] at hrow'
    split at hrow'
    · exact hrow'
    · split at hrow'
      · cases hrow'
      · exact hrow'
  | present token =>
    rw [World.step]
    split <;> exact RowKept.of_eq fun _ h => h
  | deleteRanOut i =>
    rw [World.step]
    split
    · exact RowKept.of_eq fun _ h => h
    · exact RowKept.of_eq fun _ h => (Option.filter_eq_some_iff.mp h).1
  | recordApp i app =>
    rw [World.step]
    split
    · exact RowKept.of_eq fun _ h => h
    · exact fun row' hrow' => .inl (row_relabel hrow')
  | changePassword i =>
    rw [World.step]
    split
    · exact RowKept.of_eq fun _ h => h
    · split
      · exact RowKept.of_eq fun _ h => h
      · next hchange =>
        obtain ⟨-, -, -, ⟨row, hrow, hhash, -⟩, -⟩ := Server.changePassword_eq_some hchange
        intro row' hrow'
        cases hrow.symm.trans hrow'
        exact .inr ⟨hhash, rfl⟩
  | revoke actor => exact RowKept.of_eq fun _ h => nomatch h
  | deleteAccount actor =>
    refine RowKept.of_eq fun row' hrow' => ?_
    rw [World.step] at hrow'
    simp only [Server.deleteAccount] at hrow'
    split at hrow'
    · exact hrow'
    · cases hrow'
  | createAccount username =>
    rw [World.step]
    split <;> exact RowKept.of_eq fun _ h => h
  | readTrail runs scope limit offset => exact RowKept.of_eq fun _ h => h

theorem now_step (w : World) (s : Step) : w.now ≤ (w.step source accountId s).now := by
  cases s with
  | pass nanos => exact Nat.le_add_right _ _
  | _ =>
    simp only [World.step]
    repeat' split
    all_goals exact Nat.le_refl _

theorem generated_step (w : World) (s : Step) :
    w.generated ≤ (w.step source accountId s).generated := by
  cases s <;> simp only [World.step] <;> repeat' split
  all_goals first | exact Nat.le_refl _ | exact Nat.le_succ _

/-! The tokens given out. -/

/-- The fingerprint of a token the source has given out. -/
def World.Given (source : TokenSource) (w : World) (hash : String) : Prop :=
  ∃ n < w.generated, hash = source.hashApiToken (source.generate n)

theorem ne_nextHash {hash : String} (h : w.Given source hash) : hash ≠ w.nextHash source := by
  obtain ⟨n, hn, rfl⟩ := h
  intro heq
  have := source.distinct n w.generated heq
  omega

structure Minted (source : TokenSource) (w : World) : Prop where
  account : w.db.session ≠ none → w.db.username ≠ none
  given : ∀ row, w.db.session = some row → w.Given source row.tokenHash
  stale : ∀ hash ∈ w.ranOut, w.Given source hash ∧
    ∀ row, w.db.session = some row → row.tokenHash = hash → row.live w.now = false

theorem Minted.initial (source : TokenSource) (username : Option String) (now : Nat) :
    Minted source (World.initial username now) where
  account h := absurd rfl h
  given _ h := nomatch h
  stale _ h := absurd h List.not_mem_nil

/-- A fingerprint is found run out by a look at the row, and kept until its delete. -/
theorem ranOut_step (w : World) (s : Step) {hash : String}
    (h : hash ∈ (w.step source accountId s).ranOut) : hash ∈ w.ranOut ∨
      ∃ row, w.db.session = some row ∧ row.tokenHash = hash ∧ row.live w.now = false ∧
        (w.step source accountId s).db = w.db ∧ (w.step source accountId s).now = w.now := by
  cases s with
  | present token =>
    rw [World.step] at h ⊢
    split at h
    · exact .inl h
    · next hfound =>
      obtain ⟨row, hrow, hhash, hdead⟩ := lookupSession_eq_ranOut.mp hfound
      rcases List.mem_cons.mp h with rfl | hold
      · exact .inr ⟨row, hrow, hhash, hdead, rfl, rfl⟩
      · exact .inl hold
    · exact .inl h
  | deleteRanOut i =>
    rw [World.step] at h
    split at h
    · exact .inl h
    · exact .inl (List.mem_of_mem_eraseIdx h)
  | _ =>
    refine .inl ?_
    simp only [World.step] at h
    repeat' split at h
    all_goals exact h

theorem account_step (w : World) (s : Step) (h : w.db.session ≠ none → w.db.username ≠ none) :
    (w.step source accountId s).db.session ≠ none →
      (w.step source accountId s).db.username ≠ none := by
  cases s with
  | login app =>
    rw [World.step]
    cases hopen : w.db.openSession w.now accountId app (w.nextHash source) with
    | none => exact h
    | some db =>
      obtain ⟨username, -, husername, -⟩ := Server.openSession_eq_some hopen
      exact fun _ => by simp [husername]
  | changePassword i =>
    rw [World.step]
    split
    · exact h
    · split
      · exact h
      · next hchange =>
        obtain ⟨username, -, husername, -⟩ := Server.changePassword_eq_some hchange
        exact fun _ => by simp [husername]
  | logout token =>
    simp only [World.step, Server.revokeSessionToken]
    split
    · exact h
    · split
      · exact fun hne => absurd rfl hne
      · exact h
  | revoke actor => exact fun hne => absurd rfl hne
  | deleteAccount actor =>
    simp only [World.step, Server.deleteAccount]
    split
    · exact h
    · exact fun hne => absurd rfl hne
  | deleteRanOut i =>
    rw [World.step]
    split
    · exact h
    · intro hne
      obtain ⟨row, hrow⟩ := Option.ne_none_iff_exists'.mp hne
      exact h (by simp [(Option.filter_eq_some_iff.mp hrow).1])
  | recordApp i app =>
    rw [World.step]
    split
    · exact h
    · intro hne
      obtain ⟨row', hrow'⟩ := Option.ne_none_iff_exists'.mp hne
      obtain ⟨row, hrow, -⟩ := row_relabel hrow'
      simp only [(relabel_eq _ _ _).1]
      exact h (by simp [hrow])
  | createAccount username =>
    rw [World.step]
    split
    · exact h
    · exact fun _ => by simp
  | present token =>
    rw [World.step]
    split <;> exact h
  | _ => exact h

theorem Given.step {hash : String} (h : w.Given source hash) (s : Step) :
    (w.step source accountId s).Given source hash := by
  obtain ⟨n, hn, rfl⟩ := h
  exact ⟨n, Nat.lt_of_lt_of_le hn (generated_step w s), rfl⟩

theorem Minted.step (h : Minted source w) (s : Step) :
    Minted source (w.step source accountId s) where
  account := account_step w s h.account
  given row' hrow' := by
    rcases rowKept_step w s row' hrow' with ⟨row, hrow, hhash, -, -⟩ | ⟨hhash, hgen⟩
    · rw [hhash]
      exact Given.step (h.given row hrow) s
    · exact ⟨w.generated, by omega, hhash⟩
  stale hash hhash := by
    rcases ranOut_step w s hhash with hold | ⟨row, hrow, rfl, hdead, hdb, hnow⟩
    · obtain ⟨hgiven, hrows⟩ := h.stale hash hold
      refine ⟨Given.step hgiven s, fun row' hrow' heq => ?_⟩
      rcases rowKept_step w s row' hrow' with ⟨row, hrow, hsame, hexpires, -⟩ | ⟨hnext, -⟩
      · have hdead := hrows row hrow (hsame.symm.trans heq)
        cases hlive : row'.live (w.step source accountId s).now with
        | false => rfl
        | true =>
          rw [live_congr hexpires] at hlive
          exact absurd (hdead.symm.trans (live_mono (now_step w s) hlive)) (by simp)
      · exact absurd (heq.symm.trans hnext) (ne_nextHash hgiven)
    · refine ⟨Given.step (h.given row hrow) s, fun row' hrow' _ => ?_⟩
      rw [hdb] at hrow'
      cases hrow.symm.trans hrow'
      rw [hnow]
      exact hdead

end

/-- Tokens told apart by their length, each its own fingerprint. -/
def tokensByLength : TokenSource where
  generate n := String.ofList (List.replicate n 'a')
  hashApiToken token := token
  distinct i j h := by
    have hlength := congrArg (fun s : String => s.toList.length) h
    simpa using hlength

end MessageCrate.Sessions

import Mathlib.Data.List.Sort
import MessageCrate.Lib.SqlTable

/- An account's Session and its entries in the Audit Trail
   (`db/session_tokens.rs`, `db/audit_trail.rs`, `credentials.rs`).

   An account has at most one row of `account_session_tokens`, which holds the fingerprint of
   its token, when it runs out and the `logged_in` entry of the login that made it. A row that
   ran out stays until its token is presented. Each write transaction is one step; a request
   looks its token up in one step and acts in a later one, on the account's row.

   Correspondence (Rust ↔ Lean):
     `account_session_tokens`, `audit_entries`   ↔ `Server.session`, `Server.entries`
     the account's row of `accounts`             ↔ `Server.username`
     `SystemTime::now()`                         ↔ a number of nanoseconds
     a write the foreign keys refuse             ↔ `none`
     `sources_sql`, `page`                       ↔ `sources`, `page`

   The rows are those of one account: no statement here reads another's, since no two tokens
   have one fingerprint. Times are numbers; their texts, of years of four digits, sort the
   same way. `World` also holds what the clients have seen: the tokens they were given, and
   the ends a page of the trail has shown them.

   Left out: password hashes and API tokens, disabled accounts, and the entries of other
   actions, which name no login. -/
namespace MessageCrate.Sessions
open SqlTable

/-! Tables. -/

inductive AppKind where
  | desktop
  | website
  deriving DecidableEq, Repr

/-- The app a request says it comes from. -/
structure ConnectingApp where
  kind : AppKind
  build : String
  deriving DecidableEq, Repr

inductive AuditAction where
  | loggedIn
  | sessionEnded
  | passwordSet
  | accountDeleted
  deriving DecidableEq, Repr

inductive AuditActor where
  | owner
  | holder
  | commandLine
  | server
  | anonymous
  deriving DecidableEq, Repr

inductive AuditReason where
  | loggedOut
  | replaced
  | revoked
  | expired
  deriving DecidableEq, Repr

def ownerAccountId : Int := 1

/-- The person logged in to an account acting on it. -/
def loggedInAs (accountId : Int) : AuditActor :=
  if accountId = ownerAccountId then .owner else .holder

/-- The GUI session's lifetime in seconds: 30 days. -/
def sessionTtlSecs : Nat := 30 * 24 * 60 * 60

def nanosPerSec : Nat := 1000000000

/-- The current Unix time in seconds. -/
def nowUnixSecs (now : Nat) : Nat := now / nanosPerSec

structure SessionRow where
  tokenHash : String
  createdAt : Nat
  expiresAt : Nat
  app : Option ConnectingApp
  loginEntryId : Option Int
  deriving DecidableEq, Repr

/-- Whether the row has not run out. -/
def SessionRow.live (now : Nat) (row : SessionRow) : Bool := row.expiresAt > nowUnixSecs now

/-- An entry to write: a row but for its id. -/
structure NewEntry where
  at_ : Nat
  action : AuditAction
  actor : AuditActor
  accountId : Option Int
  username : Option String
  reason : Option AuditReason
  app : Option ConnectingApp
  sessionEntryId : Option Int
  sessionExpiresAt : Option Nat
  deriving DecidableEq, Repr

structure AuditEntryRow extends NewEntry where
  id : Int
  deriving DecidableEq, Repr

instance : Row AuditEntryRow Empty where
  id := AuditEntryRow.id
  key _ := none

structure Server where
  username : Option String
  session : Option SessionRow
  entries : Table AuditEntryRow

/-! The Audit Trail's writes. -/

def NewEntry.row (entry : NewEntry) : New AuditEntryRow where
  row i := { entry with id := i }
  key := none
  id_row _ := rfl
  key_row _ := rfl

/-- The instant an expiry in seconds is written as. -/
def expiryText (expiresAtUnix : Nat) : Nat := expiresAtUnix * nanosPerSec

namespace Server

/-- One entry written, and its id. -/
def insert (entry : NewEntry) (db : Server) : Server × Int :=
  ({ db with entries := db.entries.insertOrIgnore entry.row }, db.entries.nextId)

section
variable (now : Nat) (db : Server)

def recordLogin (accountId : Int) (username : String) (app : Option ConnectingApp)
    (expiresAtUnix : Nat) : Server × Int :=
  db.insert ⟨now, .loggedIn, loggedInAs accountId, some accountId, some username, none, app, none,
    some (expiryText expiresAtUnix)⟩

/-- The holder's change of password; `renewed` names the login it renews and the new expiry. -/
def recordOwnPasswordChange (accountId : Int) (renewed : Option (Int × Nat)) : Server :=
  match db.username with
  | none => db
  | some username =>
    (db.insert ⟨now, .passwordSet, loggedInAs accountId, some accountId, some username, none, none,
      renewed.map Prod.fst, renewed.map (fun r => expiryText r.2)⟩).1

/-- The end of the Session whose login is `loginEntryId`. -/
def recordSessionEnd (loginEntryId : Int) (reason : AuditReason) (actor : AuditActor) : Server :=
  match db.entries.rows.find? (fun l => l.id = loginEntryId) with
  | none => db
  | some login =>
    (db.insert ⟨now, .sessionEnded, actor, login.accountId, login.username, some reason, none,
      some loginEntryId, none⟩).1

/-! The Session's row. -/

/-- The login of the account's Session, when one made it and it has not run out. -/
def liveLoginEntry : Option Int :=
  match db.session with
  | none => none
  | some row => row.loginEntryId.filter (fun _ => row.live now)

/-- What looking a presented token up found. -/
inductive Found where
  | nothing
  | ranOut
  | live (app : Option ConnectingApp) (loginEntryId : Option Int)
  deriving DecidableEq, Repr

def lookupSession (tokenHash : String) : Found :=
  match db.session with
  | none => .nothing
  | some row =>
    if row.tokenHash = tokenHash then
      if row.live now then .live row.app row.loginEntryId else .ranOut
    else .nothing

/-- `DELETE FROM account_session_tokens WHERE token_hash = …`. -/
def deleteToken (tokenHash : String) : Server :=
  { db with session := db.session.filter (fun row => row.tokenHash ≠ tokenHash) }

def recordConnectingApp (known : Option ConnectingApp) (app : ConnectingApp) : Server :=
  if known = some app then db
  else { db with session := db.session.map (fun row => { row with app := some app }) }

/-- The live Session's end, recorded; the row is left to the caller. -/
def endLive (reason : AuditReason) (actor : AuditActor) : Server :=
  match db.liveLoginEntry now with
  | none => db
  | some previous => db.recordSessionEnd now previous reason actor

/-- The upsert of a login and the row it makes. -/
def openSession (accountId : Int) (app : Option ConnectingApp) (tokenHash : String) :
    Option Server :=
  match db.username with
  | none => none
  | some username =>
    let db := db.endLive now .replaced (loggedInAs accountId)
    let expires := nowUnixSecs now + sessionTtlSecs
    let (db, loginEntryId) := db.recordLogin now accountId username app expires
    some { db with session := some ⟨tokenHash, nowUnixSecs now, expires, app, some loginEntryId⟩ }

/-- The upsert of a password change: a row that is there keeps its app and its login. -/
def rotate (tokenHash : String) : Option (Server × Nat) :=
  match db.username with
  | none => none
  | some _ =>
    let expires := nowUnixSecs now + sessionTtlSecs
    let row : SessionRow :=
      match db.session with
      | none => ⟨tokenHash, nowUnixSecs now, expires, none, none⟩
      | some row =>
        { row with tokenHash := tokenHash, createdAt := nowUnixSecs now, expiresAt := expires }
    some ({ db with session := some row }, expires)

def changePassword (accountId : Int) (tokenHash : String) : Option Server := do
  let loginEntryId := db.liveLoginEntry now
  let (db, expires) ← db.rotate now tokenHash
  return db.recordOwnPasswordChange now accountId (loginEntryId.map (fun id => (id, expires)))

/-- Log out: the row the presented token names goes, and its end is recorded. -/
def revokeSessionToken (accountId : Int) (tokenHash : String) : Server :=
  match db.session with
  | none => db
  | some row =>
    if row.tokenHash = tokenHash then
      let db := match row.loginEntryId with
        | none => db
        | some login => db.recordSessionEnd now login .loggedOut (loggedInAs accountId)
      { db with session := none }
    else db

def revokeAccountSessions (actor : AuditActor) : Server :=
  { db.endLive now .revoked actor with session := none }

/-- `ON DELETE SET NULL` on the account's entries. -/
def detach (accountId : Int) : Change AuditEntryRow where
  apply e := if e.accountId = some accountId then { e with accountId := none } else e
  id_apply e := by split <;> rfl
  key_apply _ := .inl rfl

def deleteAccount (accountId : Int) (actor : AuditActor) : Server :=
  match db.username with
  | none => db
  | some username =>
    let db := db.revokeAccountSessions now actor
    let (db, _) := db.insert ⟨now, .accountDeleted, actor, some accountId, some username, none, none,
      none, none⟩
    ⟨none, none, db.entries.update (detach accountId)⟩

end

end Server

/-! What each write leaves of the entries. -/

/-- An entry but for whose it is. -/
def AuditEntryRow.unowned (e : AuditEntryRow) : AuditEntryRow := { e with accountId := none }

namespace Server
variable {now : Nat} {db db' : Server} {accountId : Int} {entry : NewEntry} {login : Int}
  {reason : AuditReason} {actor : AuditActor} {app : Option ConnectingApp} {tokenHash : String}

/-- The entries but for whose they are: what no write edits. -/
def history (db : Server) : List AuditEntryRow := db.entries.rows.map AuditEntryRow.unowned

/-- Whether the trail has an entry of that id. -/
def HasEntry (id : Int) (db : Server) : Prop := ∃ e ∈ db.history, e.id = id

theorem hasEntry_iff {id : Int} : db.HasEntry id ↔ ∃ e ∈ db.entries.rows, e.id = id := by
  simp [HasEntry, history, AuditEntryRow.unowned]

theorem not_hasEntry_nextId (db : Server) : ¬ db.HasEntry db.entries.nextId := by
  rw [hasEntry_iff]
  rintro ⟨e, he, hid⟩
  exact Table.id_ne_nextId he hid

theorem HasEntry.mono {id : Int} (h : db.HasEntry id) (hgrows : db.history <+: db'.history) :
    db'.HasEntry id := by
  obtain ⟨e, he, hid⟩ := h
  exact ⟨e, hgrows.subset he, hid⟩

@[simp] theorem session_insert : (db.insert entry).1.session = db.session := rfl

@[simp] theorem username_insert : (db.insert entry).1.username = db.username := rfl

theorem history_insert : (db.insert entry).1.history =
    db.history ++ [AuditEntryRow.unowned { entry with id := db.entries.nextId }] := by
  have hfree : ¬ db.entries.holds entry.row.key = true := by simp [NewEntry.row, Table.holds]
  rw [history, insert, Table.rows_insertOrIgnore, if_neg hfree, List.map_append]
  rfl

/-- The write of one entry that ends the Session of a login. -/
def Closes (now : Nat) (login : Int) (reason : AuditReason) (db db' : Server) : Prop :=
  ∃ e : AuditEntryRow, e.action = .sessionEnded ∧ e.sessionEntryId = some login ∧
    e.reason = some reason ∧ e.at_ = now ∧ e.sessionExpiresAt = none ∧ ¬ db.HasEntry e.id ∧
    db'.history = db.history ++ [e]

theorem session_recordSessionEnd :
    (db.recordSessionEnd now login reason actor).session = db.session := by
  unfold recordSessionEnd
  split <;> rfl

theorem username_recordSessionEnd :
    (db.recordSessionEnd now login reason actor).username = db.username := by
  unfold recordSessionEnd
  split <;> rfl

theorem closes_recordSessionEnd (now : Nat) (reason : AuditReason) (actor : AuditActor)
    (h : db.HasEntry login) : Closes now login reason db (db.recordSessionEnd now login reason actor) := by
  obtain ⟨l, hl, hid⟩ := hasEntry_iff.mp h
  unfold recordSessionEnd
  cases hfind : db.entries.rows.find? (fun l => l.id = login) with
  | none => exact absurd (List.find?_eq_none.mp hfind l hl) (by simp [hid])
  | some found => exact ⟨_, rfl, rfl, rfl, rfl, rfl, not_hasEntry_nextId _, history_insert⟩

theorem prefix_recordSessionEnd :
    db.history <+: (db.recordSessionEnd now login reason actor).history := by
  unfold recordSessionEnd
  split
  · exact List.prefix_rfl
  · rw [history_insert]
    exact List.prefix_append _ _

@[simp] theorem session_endLive : (db.endLive now reason actor).session = db.session := by
  unfold endLive
  split
  · rfl
  · exact session_recordSessionEnd

@[simp] theorem username_endLive : (db.endLive now reason actor).username = db.username := by
  unfold endLive
  split
  · rfl
  · exact username_recordSessionEnd

theorem prefix_endLive : db.history <+: (db.endLive now reason actor).history := by
  unfold endLive
  split
  · exact List.prefix_rfl
  · exact prefix_recordSessionEnd

/-- A Session opened: the live one's end is recorded, then the login, and its row takes the
place of the one there was. -/
theorem openSession_eq_some (h : db.openSession now accountId app tokenHash = some db') :
    ∃ username, db.username = some username ∧ db'.username = some username ∧
      ∃ l : AuditEntryRow, l.action = .loggedIn ∧
        l.sessionExpiresAt = some (expiryText (nowUnixSecs now + sessionTtlSecs)) ∧
        l.sessionEntryId = none ∧
        ¬ (db.endLive now .replaced (loggedInAs accountId)).HasEntry l.id ∧
        db'.history = (db.endLive now .replaced (loggedInAs accountId)).history ++ [l] ∧
        db'.session = some ⟨tokenHash, nowUnixSecs now, nowUnixSecs now + sessionTtlSecs, app,
          some l.id⟩ := by
  unfold openSession at h
  cases husername : db.username with
  | none =>
    rw [husername] at h
    cases h
  | some username =>
    rw [husername] at h
    cases h
    refine ⟨username, rfl, ?_, _, rfl, rfl, rfl, not_hasEntry_nextId _, history_insert, rfl⟩
    exact username_endLive.trans husername

/-- A change of password: the account's row, or a new one, holds the new token. -/
theorem changePassword_eq_some (h : db.changePassword now accountId tokenHash = some db') :
    ∃ username, db.username = some username ∧ db'.username = some username ∧
      (∃ row, db'.session = some row ∧ row.tokenHash = tokenHash ∧
        row.expiresAt = nowUnixSecs now + sessionTtlSecs ∧
        row.loginEntryId = db.session.bind (fun row => row.loginEntryId)) ∧
      ∃ e : AuditEntryRow, e.action = .passwordSet ∧ e.sessionEntryId = db.liveLoginEntry now ∧
        e.sessionExpiresAt = (db.liveLoginEntry now).map
          (fun _ => expiryText (nowUnixSecs now + sessionTtlSecs)) ∧
        ¬ db.HasEntry e.id ∧ db'.history = db.history ++ [e] := by
  unfold changePassword rotate recordOwnPasswordChange at h
  cases husername : db.username with
  | none =>
    rw [husername] at h
    cases h
  | some username =>
    simp only [husername, Option.bind_eq_bind, Option.bind_some, Option.pure_def,
      Option.some.injEq] at h
    subst h
    refine ⟨username, rfl, rfl, ⟨_, rfl, ?_, ?_, ?_⟩, _, rfl, ?_, ?_, not_hasEntry_nextId _,
      history_insert⟩
    · cases db.session <;> rfl
    · cases db.session <;> rfl
    · cases db.session <;> rfl
    · cases db.liveLoginEntry now <;> rfl
    · cases db.liveLoginEntry now <;> rfl

theorem history_detach (username : Option String) (session : Option SessionRow) :
    history ⟨username, session, db.entries.update (detach accountId)⟩ = db.history := by
  unfold history
  rw [Table.rows_update, List.map_map]
  congr 1
  funext e
  simp only [Function.comp, detach]
  split <;> rfl

end Server

/-! Reading the trail. -/

/-- Where a row of the trail comes from, in the order of the tags that break ties. -/
inductive Source where
  | entry
  | importRun
  | exportRun
  | expiry
  deriving DecidableEq, Repr

def Source.tag : Source → String
  | .entry => "e"
  | .expiry => "x"
  | .importRun => "i"
  | .exportRun => "o"

structure SourceRow where
  src : Source
  id : Int
  at_ : Nat
  accountId : Option Int
  deriving DecidableEq, Repr

/-- An Import Run or an Export Run, as a row of the trail. -/
structure RunRow extends SourceRow where
  isRun : src = .importRun ∨ src = .exportRun

/-- An end a page shows: of which login's Session, for what reason, and when. -/
structure SessionEnd where
  login : Int
  reason : Option AuditReason
  at_ : Nat
  deriving DecidableEq, Repr

namespace Server
variable (now : Nat) (db : Server)

/-- When a login's Session runs out: the latest expiry of the changes of password that renewed
it, or its own. -/
def sessionExpiry (l : AuditEntryRow) : Option Nat :=
  ((db.entries.rows.filter (fun r => r.sessionEntryId = some l.id ∧ r.action = .passwordSet)
    ).filterMap (fun r => r.sessionExpiresAt)).max?.or l.sessionExpiresAt

/-- Whether an end is stored for the login. -/
def storedEnd (loginEntryId : Int) : Bool :=
  db.entries.rows.any (fun e => e.sessionEntryId = some loginEntryId ∧ e.action = .sessionEnded)

/-- The row of a Session that ran out with no end stored. -/
def expiryRow (l : AuditEntryRow) : Option SourceRow :=
  if l.action = .loggedIn ∧ db.storedEnd l.id = false then
    (db.sessionExpiry l).bind (fun expiresAt =>
      if expiresAt ≤ now then some ⟨.expiry, l.id, expiresAt, l.accountId⟩ else none)
  else none

/-- The rows of the trail's sources. -/
def sources (runs : List RunRow) : List SourceRow :=
  db.entries.rows.map (fun e => ⟨.entry, e.id, e.at_, e.accountId⟩) ++
    db.entries.rows.filterMap (db.expiryRow now) ++ runs.map RunRow.toSourceRow

/-- The end a row of the trail reads as, if it is one (`load_entry`, `load_expiry`). -/
def loadEnd (row : SourceRow) : Option SessionEnd :=
  match row.src with
  | .entry =>
    (db.entries.rows.find? (fun e => e.id = row.id)).bind (fun e =>
      if e.action = .sessionEnded then
        e.sessionEntryId.map (fun login => ⟨login, e.reason, e.at_⟩)
      else none)
  | .expiry =>
    (db.entries.rows.find? (fun l => l.id = row.id)).bind (fun l =>
      (db.sessionExpiry l).map (fun expiresAt => ⟨l.id, some .expired, expiresAt⟩))
  | .importRun | .exportRun => none

/-- `ORDER BY at DESC, src DESC, id DESC`. -/
def newerFirst (r r' : SourceRow) : Bool :=
  r'.at_ < r.at_ ∨ r.at_ = r'.at_ ∧
    (r'.src.tag < r.src.tag ∨ r.src = r'.src ∧ r'.id ≤ r.id)

/-- The rows of one page: of every account, or of the one in scope. -/
def page (runs : List RunRow) (scope : Option Int) (limit offset : Nat) : List SourceRow :=
  ((((db.sources now runs).filter (fun r => scope.isNone || r.accountId == scope)
    ).insertionSort (fun r r' => newerFirst r r' = true)).drop offset).take limit

/-- Every end the trail holds for a login. -/
def endsOf (runs : List RunRow) (login : Int) : List SessionEnd :=
  ((db.sources now runs).filterMap db.loadEnd).filter (fun e => e.login = login)

end Server

/-! The clients and the server. -/

/-- The tokens the random source gives and their fingerprints: no two alike. -/
structure TokenSource where
  generate : Nat → String
  hashApiToken : String → String
  distinct : ∀ i j, hashApiToken (generate i) = hashApiToken (generate j) → i = j

/-- A request whose token named a live Session, and the login of that Session. -/
structure Request where
  app : Option ConnectingApp
  login : Option Int
  deriving DecidableEq, Repr

/-- A token a client was given: the Session that asked for it, by its login, and the one the
account had when it was issued. -/
structure Issue where
  token : String
  askedBy : Option Int
  current : Option Int
  deriving DecidableEq, Repr

/-- One account's part of the server, the clock, what its clients hold, and what has come to
pass. -/
structure World where
  db : Server
  now : Nat
  generated : Nat
  /-- Requests that looked their token up and have not acted yet. -/
  requests : List Request
  /-- Fingerprints of tokens found run out, whose rows are still to delete. -/
  ranOut : List String
  issued : List Issue
  /-- The logins of the Sessions that were logged out, replaced, revoked or ran out. -/
  ended : List Int
  /-- The ends the pages read so far have shown. -/
  shown : List SessionEnd

inductive Step where
  | pass (nanos : Nat)
  | login (app : Option ConnectingApp)
  | logout (token : String)
  | present (token : String)
  | deleteRanOut (i : Nat)
  | recordApp (i : Nat) (app : ConnectingApp)
  | changePassword (i : Nat)
  | revoke (actor : AuditActor)
  | deleteAccount (actor : AuditActor)
  | createAccount (username : String)
  | readTrail (runs : List RunRow) (scope : Option Int) (limit offset : Nat)

namespace World
variable (source : TokenSource) (accountId : Int)

/-- The login of the Session in the row, run out or not. -/
def rowLogin (db : Server) : Option Int := db.session.bind (fun row => row.loginEntryId)

/-- The next token of the source. -/
def nextToken (w : World) : String := source.generate w.generated

def nextHash (w : World) : String := source.hashApiToken (w.nextToken source)

def step (w : World) : Step → World
  | .pass nanos =>
    let ranOut := (w.db.session.filter (fun row => !row.live (w.now + nanos))).bind
      (fun row => row.loginEntryId)
    { w with now := w.now + nanos, ended := ranOut.toList ++ w.ended }
  | .login app =>
    match w.db.openSession w.now accountId app (w.nextHash source) with
    | none => w
    | some db =>
      { w with
        db := db
        generated := w.generated + 1
        issued := ⟨w.nextToken source, rowLogin db, rowLogin db⟩ :: w.issued
        ended := (rowLogin w.db).toList ++ w.ended }
  | .logout token =>
    let db := w.db.revokeSessionToken w.now accountId (source.hashApiToken token)
    let gone := if db.session = none then rowLogin w.db else none
    { w with db := db, ended := gone.toList ++ w.ended }
  | .present token =>
    match w.db.lookupSession w.now (source.hashApiToken token) with
    | .nothing => w
    | .ranOut => { w with ranOut := source.hashApiToken token :: w.ranOut }
    | .live app login => { w with requests := w.requests ++ [⟨app, login⟩] }
  | .deleteRanOut i =>
    match w.ranOut[i]? with
    | none => w
    | some hash => { w with db := w.db.deleteToken hash, ranOut := w.ranOut.eraseIdx i }
  | .recordApp i app =>
    match w.requests[i]? with
    | none => w
    | some request => { w with db := w.db.recordConnectingApp request.app app }
  | .changePassword i =>
    match w.requests[i]? with
    | none => w
    | some request =>
      match w.db.changePassword w.now accountId (w.nextHash source) with
      | none => { w with requests := w.requests.eraseIdx i }
      | some db =>
        { w with
          db := db
          generated := w.generated + 1
          requests := w.requests.eraseIdx i
          issued := ⟨w.nextToken source, request.login, w.db.liveLoginEntry w.now⟩ :: w.issued }
  | .revoke actor =>
    { w with
      db := w.db.revokeAccountSessions w.now actor
      ended := (rowLogin w.db).toList ++ w.ended }
  | .deleteAccount actor =>
    { w with
      db := w.db.deleteAccount w.now accountId actor
      ended := (rowLogin w.db).toList ++ w.ended }
  | .createAccount username =>
    match w.db.username with
    | some _ => w
    | none => { w with db := { w.db with username := some username } }
  | .readTrail runs scope limit offset =>
    { w with shown := (w.db.page w.now runs scope limit offset).filterMap w.db.loadEnd ++ w.shown }

/-- The account with no Session and no entry, and no request under way. -/
def initial (username : Option String) (now : Nat) : World :=
  ⟨⟨username, none, Table.empty⟩, now, 0, [], [], [], [], []⟩

/-- The world after the steps. -/
def run (steps : List Step) (w : World) : World := steps.foldl (step source accountId) w

/-- Whether a request with the token is let through. -/
def Authenticates (w : World) (token : String) : Prop :=
  ∃ app login, w.db.lookupSession w.now (source.hashApiToken token) = .live app login

end World

end MessageCrate.Sessions

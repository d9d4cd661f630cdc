import KyYard.Accounts.SignIn
import KyYard.Accounts.Delegation

/-!
# What a password replacement ends

A sign-in takes several transactions and carries what it read from one to the next: an account with
its hash, a challenge it consumed, a session it was shown. Between any two of them the password may
be replaced or the account switched off. A step here is one transaction or one read, and the requests
between two of theirs are part of the state.

Over every interleaving, whatever a replacement finds of the account is gone after it; nothing that
was read under the old hash is committed later; a session belongs to an active account; and a request
is not accepted on a session from before a replacement with the account as the replacement left it
(`replacement_ends_what_came_before`).

A password's hash carries a fresh salt and a token is drawn from 32 random bytes, so neither comes up
twice (`fresh`).
-/

namespace KyYard.Accounts.Passwords

open Foundation

/-! ## Requests in flight -/

/-- What a provider said of a sign-in; every field is empty for a password. -/
structure Login where
  provider : String
  subject : String
  sid : String
  issuedAt : Option Int
deriving DecidableEq

/-- A sign-in by password. -/
def Login.password : Login := ⟨"", "", "", none⟩

/-- The sign-in a challenge was started for. -/
def Login.of (c : MFAChallenge) : Login := ⟨c.ssoProvider, c.ssoSubject, c.ssoSID, c.ssoIssuedAt⟩

/-- The zero `time.Time`, where a provider dated nothing. -/
def zeroTime : Int := -62135596800000000000

/-- The session `IssueSSOSession` creates: a provider's is dated by its token. -/
def Login.session (login : Login) (userID tokenHash : String) (expiresAt now : Int) : Session where
  tokenHash := tokenHash
  userID := userID
  createdAt := if login.provider = "" then now else login.issuedAt.getD zeroTime
  expiresAt := expiresAt
  ssoProvider := login.provider
  ssoSID := login.sid

/-- The challenge `beginMFA` creates; the store adds the hash. -/
def Login.challenge (login : Login) (userID tokenHash : String) (expiresAt : Int) : MFAChallenge where
  tokenHash := tokenHash
  userID := userID
  expiresAt := expiresAt
  passwordHash := ""
  ssoProvider := login.provider
  ssoSID := login.sid
  ssoIssuedAt := login.issuedAt
  ssoSubject := login.subject

/-- The sign-in goes through the account's own second factor. -/
def Login.asksCode (login : Login) (user : User) : Bool :=
  if login.provider = "" then user.totpEnabled else user.ssoProvider = "local" && user.totpEnabled

/-- The account a first provider sign-in creates. -/
def Login.provisioned (login : Login) (id username email displayName : String) : User where
  id := id
  username := username
  email := email
  displayName := displayName
  passwordHash := ""
  role := "user"
  status := "active"
  ssoProvider := login.provider
  ssoSubject := login.subject
  totpSecretEnc := ""
  totpEnabled := false
  recoveryCodesHash := "[]"
  mustChangePassword := false

/-- A request between two of its transactions. -/
inductive Flight
  /-- The account of a proven password or provider login was read. -/
  | signIn (user : User) (login : Login)
  /-- A challenge was consumed. -/
  | consumed (c : MFAChallenge)
  /-- The account of a consumed challenge was read and its code is right. -/
  | proven (c : MFAChallenge) (user : User)
  /-- `AuthenticateRequest` found the session. -/
  | shown (s : Session)
  /-- It then read the account. -/
  | loaded (s : Session) (user : User)
  /-- It found the session again and accepted the request. -/
  | accepted (s : Session) (user : User)
  /-- `handleAccountPassword` changed the password and holds the new hash. -/
  | renewed (user : User)
  /-- A browser is at the provider to link an identity. -/
  | linking (userID sessionHash passwordHash : String)
deriving DecidableEq

/-- The database and the requests in flight. -/
structure State where
  db : Db
  flights : List Flight

/-! ## Steps -/

/-- One transaction, or one read. A step of a request names the request. -/
inductive Op
  | createUser (user : User)
  | provision (login : Login) (id username email displayName : String)
  | login (username : String)
  | callback (login : Login)
  | challenge (user : User) (login : Login) (tokenHash : String) (expiresAt : Int)
  | issue (user : User) (login : Login) (tokenHash : String) (expiresAt : Int)
  | consume (tokenHash : String)
  | prove (c : MFAChallenge)
  | redeem (c : MFAChallenge) (user : User) (codes : String)
  | issueMFA (c : MFAChallenge) (user : User) (tokenHash : String) (expiresAt : Int)
  | present (tokenHash : String)
  | load (s : Session)
  | recheck (s : Session) (user : User) (permitted : Bool)
  | updateMFA (s : Session) (user : User) (toState : MFAState) (action ip : String)
  | changePassword (s : Session) (user : User) (newHash ip : String)
  | renew (user : User) (tokenHash : String) (expiresAt : Int)
  | completePasswordChange (s : Session) (user : User) (newHash ip : String)
  | startLink (s : Session) (user : User)
  | linkSSO (s : Session) (user : User) (passwordHash provider subject ip : String)
  | unlinkSSO (s : Session) (user : User) (provider ip : String)
  | resetAdminPassword (userID newHash : String)
  | createPairing (p : DevicePairing)
  | deleteSession (tokenHash : String)
  | deleteUser (id : String)
  | directory (payload : SyncPayload) (suffix : String)
  | installerDirectory (m : InstallerMessage)
  | revokeInstallerIdentity (issuer subject : String)

/-- A request takes its next step: it is in flight, and is replaced by what it becomes. -/
def State.advance (st : State) (f : Flight) (next : List Flight → Except Err State) :
    Except Err State :=
  if f ∈ st.flights then next (st.flights.erase f) else .error .notFound

/-- An account that proves its own password, as `accountUser` asks. -/
def ownPassword (user : User) : Bool := user.ssoProvider = "local" && user.passwordHash ≠ ""

/-- What a transaction commits, with the requests that are then in flight. -/
def commit (flights : List Flight) (x : Except Err Db) : Except Err State := x.map (⟨·, flights⟩)

/-- Reading the account of a proven login. -/
def State.signIn (st : State) (login : Login) : Option User → Except Err State
  | none => .error .notFound
  | some user =>
    if user.status ≠ "active" then .error .forbidden
    else if login.provider = installerProvider ∧ ¬ installerUserAllowed user st.db then
      .error .forbidden
    else .ok { st with flights := .signIn user login :: st.flights }

/-- `handleMFATOTP` and `handleMFARecovery` after they read the account. -/
def State.prove (st : State) (c : MFAChallenge) (rest : List Flight) : Except Err State :=
  match st.db.user? c.userID with
  | none => .error .notFound
  | some user =>
    if user.status ≠ "active" ∨ user.totpEnabled = false ∨ user.passwordHash ≠ c.passwordHash then
      .error .forbidden
    else .ok { st with flights := .proven c user :: rest }

/-- `AuthenticateRequest` after it read the account. -/
def State.load (st : State) (s : Session) (rest : List Flight) : Except Err State :=
  match st.db.user? s.userID with
  | none => .error .notFound
  | some user =>
    if user.status ≠ "active" then .ok ⟨deleteSession s.tokenHash st.db, rest⟩
    else if ¬ installerUserAllowed user st.db then .error .forbidden
    else .ok { st with flights := .loaded s user :: rest }

/-- A read of the session a request shows, and what becomes of the request if it is there. An expired
session is deleted even so. -/
def State.see (st : State) (tokenHash : String) (now : Int) (rest : List Flight)
    (found : Session → Except Err Flight) : Except Err State :=
  match getSession tokenHash now st.db with
  | (.error _, db) => .ok ⟨db, rest⟩
  | (.ok s, db) => (found s).map fun f => ⟨db, f :: rest⟩

/-- The end of `AuthenticateRequest`: a password that must be changed closes all but three routes. -/
def accepts (s : Session) (user : User) (permitted : Bool) : Except Err Flight :=
  if user.mustChangePassword ∧ ¬ permitted then .error (.other "password change required")
  else .ok (.accepted s user)

/-- What a step does to the tables and the flights. -/
def act (b : Backend) (now : Int) (st : State) : Op → Except Err State
  | .createUser user =>
    commit st.flights (st.db.createUser b { user with ssoProvider := "local", ssoSubject := "" })
  | .provision login id username email displayName =>
    if ¬ providerID login.provider then .error .notFound
    else
      let user := login.provisioned id username email displayName
      commit (.signIn user login :: st.flights) (st.db.createUser b user)
  | .login username => st.signIn .password (st.db.userByUsername b username)
  | .callback login =>
    if ¬ providerID login.provider then .error .notFound
    else st.signIn login (st.db.userBySSO login.provider login.subject)
  | .challenge user login tokenHash expiresAt =>
    st.advance (.signIn user login) fun rest =>
      if ¬ login.asksCode user then .error .invalid
      else commit rest
        (createMFAChallenge (login.challenge user.id tokenHash expiresAt) user.passwordHash st.db)
  | .issue user login tokenHash expiresAt =>
    st.advance (.signIn user login) fun rest =>
      if login.asksCode user then .error .invalid
      else commit rest (createSession (login.session user.id tokenHash expiresAt now) login.subject
        user.passwordHash st.db)
  | .consume tokenHash =>
    (consumeMFAChallenge tokenHash now st.db).map fun (c, db) => ⟨db, .consumed c :: st.flights⟩
  | .prove c => st.advance (.consumed c) (st.prove c)
  | .redeem c user codes =>
    st.advance (.proven c user) fun _ =>
      commit st.flights (updateRecoveryCodes user.id user.recoveryCodesHash codes st.db)
  | .issueMFA c user tokenHash expiresAt =>
    st.advance (.proven c user) fun rest =>
      commit rest (createSession ((Login.of c).session user.id tokenHash expiresAt now) c.ssoSubject
        user.passwordHash st.db)
  | .present tokenHash => st.see tokenHash now st.flights fun s => .ok (.shown s)
  | .load s => st.advance (.shown s) (st.load s)
  | .recheck s user permitted =>
    st.advance (.loaded s user) fun rest =>
      st.see s.tokenHash now rest fun _ => accepts s user permitted
  | .updateMFA s user toState action ip =>
    st.advance (.accepted s user) fun rest =>
      if ¬ ownPassword user then .error .forbidden
      else commit rest
        (Accounts.updateMFA user.id user.passwordHash user.mfa toState action ip now st.db)
  | .changePassword s user newHash ip =>
    st.advance (.accepted s user) fun rest =>
      if ¬ ownPassword user then .error .forbidden
      else commit (.renewed { user with passwordHash := newHash } :: rest)
        (Accounts.changePassword user.id user.passwordHash newHash ip now st.db)
  | .renew user tokenHash expiresAt =>
    st.advance (.renewed user) fun rest =>
      commit rest (createSession (Login.password.session user.id tokenHash expiresAt now) ""
        user.passwordHash st.db)
  | .completePasswordChange s user newHash ip =>
    st.advance (.accepted s user) fun rest =>
      if ¬ (user.mustChangePassword ∧ user.ssoProvider = "local") then .error .invalid
      else commit rest
        (Accounts.completePasswordChange user.id user.passwordHash newHash ip now st.db)
  | .startLink s user =>
    st.advance (.accepted s user) fun rest =>
      if ¬ ownPassword user then .error .forbidden
      else .ok { st with flights := .linking user.id s.tokenHash user.passwordHash :: rest }
  | .linkSSO s user passwordHash provider subject ip =>
    st.advance (.accepted s user) fun rest =>
      -- the attempt is the one this account started from this session
      if .linking user.id s.tokenHash passwordHash ∉ rest then .error .forbidden
      else commit (rest.erase (.linking user.id s.tokenHash passwordHash))
        (Accounts.linkSSO user.id s.tokenHash passwordHash provider subject ip now st.db)
  | .unlinkSSO s user provider ip =>
    st.advance (.accepted s user) fun rest =>
      if ¬ ownPassword user then .error .forbidden
      else commit rest (Accounts.unlinkSSO user.id user.passwordHash provider ip now st.db)
  | .resetAdminPassword userID newHash =>
    commit st.flights (Accounts.resetAdminPassword userID newHash now st.db)
  | .createPairing p => commit st.flights (Accounts.createPairing p st.db)
  | .deleteSession tokenHash => .ok { st with db := Accounts.deleteSession tokenHash st.db }
  | .deleteUser id => commit st.flights (Accounts.deleteUser b id now st.db)
  | .directory payload suffix =>
    commit st.flights (applyDirectoryEvent b payload suffix now st.db)
  | .installerDirectory m => commit st.flights (applyInstallerDirectory m now st.db)
  | .revokeInstallerIdentity issuer subject =>
    commit st.flights (Accounts.revokeInstallerIdentity issuer subject now st.db)

/-! ## History -/

namespace Op

/-- The token, or the pairing secret, the step draws. -/
def draws : Op → Option String
  | challenge _ _ tokenHash _ => some tokenHash
  | issue _ _ tokenHash _ => some tokenHash
  | issueMFA _ _ tokenHash _ => some tokenHash
  | renew _ tokenHash _ => some tokenHash
  | createPairing p => some p.secretHash
  | _ => none

/-- The local password hash the step sets. -/
def sets : Op → Option String
  | createUser user => some user.passwordHash
  | changePassword _ _ newHash _ => some newHash
  | completePasswordChange _ _ newHash _ => some newHash
  | resetAdminPassword _ newHash => some newHash
  | _ => none

/-- The account whose password the step replaces, and the hash it replaces. -/
def replaces (db : Db) : Op → Option (String × String)
  | changePassword _ user _ _ => some (user.id, user.passwordHash)
  | completePasswordChange _ user _ _ => some (user.id, user.passwordHash)
  | resetAdminPassword userID _ => (db.user? userID).map fun u => (userID, u.passwordHash)
  | _ => none

/-- The account and the hash on whose strength the step commits a session, a challenge, a change of
the second factor or a link: what the request read, or what its challenge was bound to. -/
def restsOn : Op → Option (String × String)
  | challenge user _ _ _ => some (user.id, user.passwordHash)
  | issue user _ _ _ => some (user.id, user.passwordHash)
  | issueMFA c _ _ _ => some (c.userID, c.passwordHash)
  | updateMFA _ user _ _ _ => some (user.id, user.passwordHash)
  | renew user _ _ => some (user.id, user.passwordHash)
  | linkSSO _ user passwordHash _ _ _ => some (user.id, passwordHash)
  | unlinkSSO _ user _ _ => some (user.id, user.passwordHash)
  | changePassword _ user _ _ => some (user.id, user.passwordHash)
  | completePasswordChange _ user _ _ => some (user.id, user.passwordHash)
  | _ => none

end Op

/-- A replacement that committed, with everything drawn before it. -/
structure Replacement where
  userID : String
  old : String
  new : String
  drawn : List String

/-- The state with its history: the local hashes and the tokens there have been, and the
replacements. -/
structure World where
  state : State
  hashes : List String
  drawn : List String
  replaced : List Replacement

/-- The replacement a step is, if it is one. -/
def World.replacement (w : World) (op : Op) : Option Replacement :=
  match op.replaces w.state.db, op.sets with
  | some (userID, old), some new => some ⟨userID, old, new, w.drawn⟩
  | _, _ => none

/-- A step, and what it adds to the history. -/
def step (b : Backend) : Int × Op → World → Except Err World
  | (now, op), w =>
    (act b now w.state op).map fun st =>
      { state := st
        hashes := w.hashes ++ op.sets.toList
        drawn := w.drawn ++ op.draws.toList
        replaced := w.replaced ++ (w.replacement op).toList }

/-- The steps in any order. -/
def machine (b : Backend) : Machine World (Int × Op) Err := ⟨step b⟩

/-- A new password hash is none there has been, and never empty; a token is none there has been. -/
def fresh (w : World) (x : Int × Op) : Prop :=
  (∀ hash ∈ x.2.sets.toList, hash ≠ "" ∧ hash ∉ w.hashes) ∧
    ∀ token ∈ x.2.draws.toList, token ∉ w.drawn

instance (w : World) (x : Int × Op) : Decidable (fresh w x) := inferInstanceAs (Decidable (_ ∧ _))

/-- The keys of everything that was granted. -/
def grants (db : Db) : List String :=
  db.sessions.map Session.tokenHash ++ db.challenges.map MFAChallenge.tokenHash ++
    db.pairings.map DevicePairing.secretHash

/-- A database with no history yet. -/
def World.start (db : Db) : World where
  state := ⟨db, []⟩
  hashes := (db.users.filter fun u => u.ssoProvider = "local").map User.passwordHash
  drawn := grants db
  replaced := []

/-- A database to begin with: keys are unique, exactly the local accounts have a password, and a
session belongs to an active account. -/
structure Begins (db : Db) : Prop where
  ids : (db.users.map User.id).Nodup
  tokens : (db.sessions.map Session.tokenHash).Nodup
  passwords : ∀ u ∈ db.users, u.passwordHash = "" ↔ u.ssoProvider ≠ "local"
  active : ∀ s ∈ db.sessions, db.active s.userID = true

end KyYard.Accounts.Passwords

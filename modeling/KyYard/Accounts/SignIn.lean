import KyYard.Accounts.Directory

/-!
# Signing in

The store's side of a sign-in: sessions, pending second factors and pending devices, the password
that stands behind them, the second factor and the linked provider identities.

`withPassword` opens every transaction that rests on a password. It writes the account's own row, so
on both databases two of them on one account run one after the other, and it finds the row only while
the account is active and its hash is still the one the caller read.
-/

namespace KyYard.Accounts

open Foundation

/-! ## The password behind a transaction -/

/-- The row `withPassword` locks. -/
def holdsPassword (userID hash : String) (u : User) : Bool :=
  u.id = userID && u.passwordHash = hash && u.status = "active"

/-- `withPassword`: the account still has the password. -/
def withPassword (userID expectedHash : String) (apply : Db → Except Err Db) (db : Db) :
    Except Err Db :=
  if (db.users.filter (holdsPassword userID expectedHash)).length ≠ 1 then .error .notFound
  else apply db

theorem withPassword_eq_ok {userID hash : String} {apply : Db → Except Err Db} {db db' : Db}
    (h : withPassword userID hash apply db = .ok db') :
    (∃ u ∈ db.users, u.id = userID ∧ u.passwordHash = hash ∧ u.status = "active") ∧
      apply db = .ok db' := by
  rw [withPassword, guard_error_eq_ok, not_not] at h
  obtain ⟨hone, happly⟩ := h
  obtain ⟨u, hu⟩ := List.length_eq_one_iff.1 hone
  obtain ⟨hmem, hrow⟩ := List.mem_filter.1 (hu ▸ List.mem_singleton_self u :
    u ∈ db.users.filter (holdsPassword userID hash))
  simp only [holdsPassword, Bool.and_eq_true, decide_eq_true_eq] at hrow
  exact ⟨⟨u, hmem, hrow.1.1, hrow.1.2, hrow.2⟩, happly⟩

/-- A row of the audit trail that names an account's own security setting. -/
def accountRecord (userID action resource details ip result : String) (now : Int) : AuditRecord where
  userID := userID
  action := action
  resource := resource
  details := details
  ipAddress := ip
  createdAt := now
  scope := "platform"
  organizationID := ""
  environmentID := ""
  result := result

/-- `revokePasswordGrants`. Its row leaves the result at the column's default. -/
def revokePasswordGrants (userID details ip : String) (now : Int) (db : Db) : Db :=
  (db.deleteGrants userID).log
    (accountRecord userID "auth.password_changed" "user" details ip "unknown" now)

/-- The account a replacement finds under the lock. -/
def replaceable (userID : String) (forced : Bool) (u : User) : Bool :=
  u.id = userID && u.mustChangePassword = forced && u.ssoProvider = "local"

/-- A new password; what came before ends. -/
def replacePassword (userID oldHash newHash ip : String) (forced : Bool) (details : String)
    (now : Int) : Db → Except Err Db :=
  withPassword userID oldHash fun db =>
    if (db.users.filter (replaceable userID forced)).length ≠ 1 then .error .notFound
    else
      .ok (revokePasswordGrants userID details ip now { db with
        users := Table.updateWhere (replaceable userID forced)
          (fun u => { u with passwordHash := newHash, mustChangePassword := false }) db.users })

/-- `CompletePasswordChange`: the first own password. -/
def completePasswordChange (userID oldHash newHash ip : String) : Int → Db → Except Err Db :=
  replacePassword userID oldHash newHash ip true "forced replacement; sessions revoked"

/-- `ChangePassword`. -/
def changePassword (userID oldHash newHash ip : String) : Int → Db → Except Err Db :=
  replacePassword userID oldHash newHash ip false "self-service change; sessions revoked"

/-- A local account. -/
def localRow (userID : String) (u : User) : Bool := u.id = userID && u.ssoProvider = "local"

/-- `ResetAdminPassword`: the operator's way in, which asks for no password. -/
def resetAdminPassword (userID newHash : String) (now : Int) (db : Db) : Except Err Db :=
  if (db.users.filter (localRow userID)).length ≠ 1 then .error .notFound
  else
    .ok (revokePasswordGrants userID "operator reset; sessions, MFA and SSO links cleared" "" now
      { db with
        users := Table.updateWhere (localRow userID)
          (fun u => { u with
            passwordHash := newHash
            mustChangePassword := true
            status := "active"
            role := "admin"
            totpSecretEnc := ""
            totpEnabled := false
            recoveryCodesHash := "" }) db.users
        identities := db.identities.filter (·.userID ≠ userID) })

/-! ## Sessions and pending second factors -/

/-- `stillSignsIn`. -/
def stillSignsIn (userID provider subject : String) (db : Db) : Except Err Unit :=
  if provider = "" then .ok ()
  else if subject = "" then .error .notFound
  else if db.users.any fun u => u.id = userID &&
      (u.ssoProvider = provider && u.ssoSubject = subject ||
        db.identities.any fun i => i.userID = u.id && i.provider = provider && i.subject = subject)
  then .ok ()
  else .error .notFound

def sessionExpired : Err := .other "session expired"

/-- A primary key that is taken. -/
def keyTaken : Err := .other "duplicate key"

/-- The transaction of `CreateSession`. What follows it, for a provider sign-in, is a look at the
provider's logouts that can only delete the session again. -/
def createSession (sess : Session) (subject expectedHash : String) : Db → Except Err Db :=
  withPassword sess.userID expectedHash fun db =>
    match stillSignsIn sess.userID sess.ssoProvider subject db with
    | .error e => .error e
    | .ok () =>
      if db.sessions.any fun s => s.tokenHash = sess.tokenHash then .error keyTaken
      else .ok { db with sessions := db.sessions ++ [sess] }

theorem createSession_eq_ok {s : Session} {subject hash : String} {db db' : Db}
    (h : createSession s subject hash db = .ok db') :
    (∃ u ∈ db.users, u.id = s.userID ∧ u.passwordHash = hash ∧ u.status = "active") ∧
      stillSignsIn s.userID s.ssoProvider subject db = .ok () ∧
      db' = { db with sessions := db.sessions ++ [s] } := by
  obtain ⟨hrow, happly⟩ := withPassword_eq_ok h
  split at happly
  · cases happly
  next hsigns =>
  rw [guard_error_eq_ok] at happly
  exact ⟨hrow, hsigns, (Except.ok.inj happly.2).symm⟩

/-- `CreateMFAChallenge`: the challenge is stored with the hash it rests on. -/
def createMFAChallenge (c : MFAChallenge) (expectedHash : String) : Db → Except Err Db :=
  withPassword c.userID expectedHash fun db =>
    match stillSignsIn c.userID c.ssoProvider c.ssoSubject db with
    | .error e => .error e
    | .ok () =>
      if db.challenges.any fun x => x.tokenHash = c.tokenHash then .error keyTaken
      else .ok { db with challenges := db.challenges ++ [{ c with passwordHash := expectedHash }] }

theorem createMFAChallenge_eq_ok {c : MFAChallenge} {hash : String} {db db' : Db}
    (h : createMFAChallenge c hash db = .ok db') :
    db' = { db with challenges := db.challenges ++ [{ c with passwordHash := hash }] } := by
  obtain ⟨-, happly⟩ := withPassword_eq_ok h
  split at happly
  · cases happly
  rw [guard_error_eq_ok] at happly
  exact (Except.ok.inj happly.2).symm

/-- `ConsumeMFAChallenge`: once, and in time. -/
def consumeMFAChallenge (tokenHash : String) (now : Int) (db : Db) : Except Err (MFAChallenge × Db) :=
  match Table.find MFAChallenge.tokenHash tokenHash db.challenges with
  | none => .error .notFound
  | some c =>
    if ¬ now < c.expiresAt then .error sessionExpired
    else .ok (c, { db with challenges := db.challenges.filter (·.tokenHash ≠ tokenHash) })

/-- `DeleteSession`. -/
def deleteSession (tokenHash : String) (db : Db) : Db :=
  { db with sessions := db.sessions.filter (·.tokenHash ≠ tokenHash) }

/-- `GetSession`: an expired session is deleted where it is found. -/
def getSession (tokenHash : String) (now : Int) (db : Db) : Except Err Session × Db :=
  match Table.find Session.tokenHash tokenHash db.sessions with
  | none => (.error .notFound, db)
  | some s =>
    if s.expiresAt < now then (.error sessionExpired, deleteSession tokenHash db) else (.ok s, db)

/-- `CreatePairing`. It takes no row lock and nothing calls it: as one step it stands for an insert
that does not fall between another transaction's deletion of pairings and its commit. -/
def createPairing (p : DevicePairing) (db : Db) : Except Err Db :=
  if db.pairings.any fun x => x.secretHash = p.secretHash then .error keyTaken
  else .ok { db with pairings := db.pairings ++ [p] }

/-! ## The second factor -/

/-- The second factor of an account. -/
structure MFAState where
  secretEnc : String
  enabled : Bool
  recoveryCodesHash : String
deriving DecidableEq

def User.mfa (u : User) : MFAState := ⟨u.totpSecretEnc, u.totpEnabled, u.recoveryCodesHash⟩

/-- The row `UpdateMFA` swaps. -/
def swappable (userID : String) (fromState : MFAState) (u : User) : Bool :=
  u.id = userID && u.ssoProvider = "local" && u.mustChangePassword = false && u.mfa = fromState

/-- `UpdateMFA`: swapped, if it is as read. -/
def updateMFA (userID passwordHash : String) (fromState toState : MFAState) (action ip : String)
    (now : Int) : Db → Except Err Db :=
  withPassword userID passwordHash fun db =>
    if (db.users.filter (swappable userID fromState)).length ≠ 1 then .error .notFound
    else
      .ok (Db.log { db with
        users := Table.updateWhere (swappable userID fromState)
          (fun u => { u with
            totpSecretEnc := toState.secretEnc
            totpEnabled := toState.enabled
            recoveryCodesHash := toState.recoveryCodesHash }) db.users }
        (accountRecord userID action "user" "" ip "success" now))

/-- The row `UpdateRecoveryCodes` swaps. -/
def redeemable (userID oldHashes : String) (u : User) : Bool :=
  u.id = userID && u.recoveryCodesHash = oldHashes

/-- `UpdateRecoveryCodes`: swapped, if as read. -/
def updateRecoveryCodes (userID oldHashes newHashes : String) (db : Db) : Except Err Db :=
  if (db.users.filter (redeemable userID oldHashes)).length ≠ 1 then .error .alreadyExists
  else
    .ok { db with
      users := Table.updateWhere (redeemable userID oldHashes)
        (fun u => { u with recoveryCodesHash := newHashes }) db.users }

/-! ## Linked identities -/

/-- `LinkSSO`. -/
def linkSSO (userID sessionHash passwordHash provider subject ip : String) (now : Int) (db : Db) :
    Except Err Db :=
  if provider = installerProvider then .error .installerOwned
  else if provider = "" ∨ provider = "local" ∨ 64 < provider.utf8ByteSize ∨ subject = "" ∨
      255 < subject.utf8ByteSize ∨ passwordHash = "" then
    .error .invalid
  else
    withPassword userID passwordHash (fun db =>
      match db.user? userID with
      | none => .error .unreadable
      | some u =>
        if u.ssoProvider ≠ "local" ∨ u.mustChangePassword = true then .error .invalid
        else if ¬ db.sessions.any fun s =>
            s.tokenHash = sessionHash && s.userID = userID && now < s.expiresAt then
          .error .notFound
        else (db.insertSSOIdentity userID provider subject).map
          (·.log (accountRecord userID "auth.sso.link" provider "" ip "success" now))) db

/-- The sessions and pending second factors a provider signed in to an account. -/
def Db.deleteProviderGrants (userID provider : String) (db : Db) : Db :=
  { db with
    sessions := db.sessions.filter fun s => ¬ (s.userID = userID ∧ s.ssoProvider = provider)
    challenges := db.challenges.filter fun c => ¬ (c.userID = userID ∧ c.ssoProvider = provider) }

/-- `UnlinkSSO`, with what the provider signed in. -/
def unlinkSSO (userID passwordHash provider ip : String) (now : Int) (db : Db) : Except Err Db :=
  if passwordHash = "" then .error .invalid
  else
    withPassword userID passwordHash (fun db =>
      match db.user? userID with
      | none => .error .unreadable
      | some u =>
        if u.ssoProvider ≠ "local" then .error .invalid
        else if (db.identities.filter fun i => i.userID = userID && i.provider = provider).length ≠ 1
        then .error .notFound
        else
          .ok ((Db.deleteProviderGrants userID provider { db with
            identities := db.identities.filter fun i =>
              ¬ (i.userID = userID ∧ i.provider = provider) }).log
            (accountRecord userID "auth.sso.unlink" provider "" ip "success" now))) db

/-! ## Who may sign in -/

/-- `getUserByUsername`. -/
def Db.userByUsername (b : Backend) (username : String) (db : Db) : Option User :=
  db.users.find? fun u => b.lower u.username = b.lower username

/-- `InstallerUserAllowed`: an account of the installer's is the one its bundle still assigns. -/
def installerUserAllowed (u : User) (db : Db) : Bool :=
  match db.installerUsers.find? fun i => i.userID = u.id with
  | none => u.ssoProvider ≠ installerProvider
  | some owned =>
    match db.bundle with
    | none => false
    | some bundle =>
      owned.setupID = bundle.setupID && owned.issuer = bundle.issuerURL &&
        owned.subject = u.ssoSubject && u.id = installerUserID owned.issuer owned.subject &&
        u.role = owned.role && u.ssoProvider = installerProvider && u.passwordHash = "" &&
        (owned.role = "admin" && (⟨owned.issuer, owned.subject⟩ : BundleIdentity) ∈ bundle.admins ||
          owned.role = "user" && (⟨owned.issuer, owned.subject⟩ : BundleIdentity) ∈ bundle.everyday)

/-- The ids a sign-in provider can have: the two from the configuration, the installer's, and those
the server draws. -/
def providerID (provider : String) : Bool :=
  provider = kysignon || provider = "oidc" || provider = installerProvider ||
    Text.hasPrefix provider "idp_"

theorem ne_local_of_providerID {provider : String} (h : providerID provider = true) :
    provider ≠ "local" := by
  rintro rfl
  revert h
  decide

end KyYard.Accounts

import KyYard.Accounts.Tenancy

/-!
# Members and the administrator quorum

Membership changes, account changes and organization creation. A local change that would leave an
organization without an active administrator is refused; an identity provider's always applies and
is recorded instead (`adminQuorum`). Each transaction sweeps the credentials of whoever lost
authority, in the organizations it collected before its write.

`Touches` says whose authority a write may change. From that and from which organizations the quorum
visits follows what works after its sweep (`administers_of_live_quorum`).
-/

namespace KyYard.Accounts

open Foundation

/-- `lockOrganization`: PostgreSQL locks the row, and so reads it; SQLite has its writer lock. -/
def lockOrganization (b : Backend) (org : String) (db : Db) : Except Err Unit :=
  if b.driver = .postgres ∧ ¬ db.organizations.any (fun o => o.id = org) then .error .forbidden
  else .ok ()

/-- A request audited under its action's own name. -/
def Request.of (a : TenantAccess) (action : Action) (target : String) (now : Int) : Request :=
  ⟨a, action, action.name, target, now⟩

/-! ## Memberships -/

namespace Db

variable (db : Db)

/-- The actor may learn that the account exists: they share an organization, or the actor is a
platform administrator. -/
def sees (actor user : String) : Bool :=
  db.users.any (fun u => u.id = user) &&
    (db.users.any (fun p => p.id = actor && p.role = "admin") ||
      db.memberships.any fun o => o.userID = user && db.memberships.any fun m =>
        m.organizationID = o.organizationID && m.userID = actor && m.status = .active)

/-- A membership inserted or replaced. -/
def putMembership (m : Membership) : Db :=
  { db with memberships := Table.upsert Membership.key (fun _ _ => true) db.memberships m }

/-- A membership deleted. -/
def removeMembership (org user : String) : Db :=
  { db with memberships := db.memberships.filter (·.key ≠ (org, user)) }

/-- How a membership change ends: the sweep, then the quorum. -/
def settleMembership (a : TenantAccess) (user : String) (now : Int) : Except Err (Db × String) :=
  let db' := db.revokeLostAdminCredentials a.organizationID user a.principal now
  match db'.requireActiveAdmin a.organizationID with
  | .error e => .error e
  | .ok () => .ok (db', "")

end Db

/-- `PutMembership`. -/
def putMembership (b : Backend) (a : TenantAccess) (userID role status : String) (now : Int) :
    Db → Except Refusal Db :=
  (Request.of a .membersManage userID now).runAs fun db =>
    match TenantRole.parse? role, MembershipStatus.parse? status with
    | some role, some status =>
      if userID = "" ∨ 64 < userID.utf8ByteSize then .error .invalid
      else
        match lockOrganization b a.organizationID db with
        | .error e => .error e
        | .ok () =>
          if ¬ db.sees a.actorID userID then .error .notFound
          else
            (db.putMembership ⟨a.organizationID, userID, role, status⟩).settleMembership a userID now
    | _, _ => .error .invalid

/-- `RemoveMembership`. -/
def removeMembership (b : Backend) (a : TenantAccess) (userID : String) (now : Int) :
    Db → Except Refusal Db :=
  (Request.of a .membersManage userID now).runAs fun db =>
    match lockOrganization b a.organizationID db with
    | .error e => .error e
    | .ok () =>
      if ¬ db.memberships.any (fun m => m.key = (a.organizationID, userID)) then .error .notFound
      else (db.removeMembership a.organizationID userID).settleMembership a userID now

/-! ## Account changes -/

/-- The audit row of an organization a directory left without an administrator. -/
def lastAdminLost (user org : String) (now : Int) : AuditRecord where
  userID := "directory"
  action := "organization.last_admin_lost"
  resource := user
  details := "repair: a platform administrator must grant a new organization administrator"
  ipAddress := ""
  createdAt := now
  scope := "organization"
  organizationID := org
  environmentID := ""
  result := "success"

/-- The organizations an active account administers, in the order they are locked. -/
def Db.administered (user : String) (db : Db) : List String :=
  Text.sort ((db.memberships.filter fun m => m.userID = user && db.adminRow m).map
    Membership.organizationID)

/-- One organization after the write: the sweep, then the quorum or, for a directory, its loss. -/
def quorumAt (user : String) (external : Bool) (now : Int) (db : Db) (org : String) :
    Except Err Db :=
  let db' := db.revokeLostAdminCredentials org user (if external then "directory" else "system") now
  match db'.requireActiveAdmin org with
  | .ok () => .ok db'
  | .error e =>
    if e = .lastAdmin ∧ external = true then .ok (db'.log (lastAdminLost user org now))
    else .error e

/-- `adminQuorum`. `write` answers `none` where it touched no row. -/
def adminQuorum (b : Backend) (user : String) (external : Bool) (now : Int)
    (write : Db → Except Err (Option Db)) (db : Db) : Except Err Db :=
  match (db.administered user).forM fun org => lockOrganization b org db with
  | .error e => .error e
  | .ok () =>
    match write db with
    | .error e => .error e
    | .ok none => .error (if db.installerOwned user then .installerOwned else .notFound)
    | .ok (some db₁) => (db.administered user).foldlM (quorumAt user external now) db₁

/-- `deleteRow`: an account the installer owns stays. -/
def deleteRow (id : String) (db : Db) : Except Err (Option Db) :=
  if db.users.any (fun u => u.id = id) ∧ ¬ db.installerOwned id then .ok (some (db.deleteUser id))
  else .ok none

/-- `DeleteUser`. -/
def deleteUser (b : Backend) (id : String) (now : Int) : Db → Except Err Db :=
  adminQuorum b id false now (deleteRow id)

/-! ## Organizations -/

/-- The first statement of `CreateOrganizationWithAdmin`: the account must be active. PostgreSQL
holds its row locked from here to the commit. -/
def readAdmin (adminUserID : String) (db : Db) : Except Err Unit :=
  match db.user? adminUserID with
  | none => .error .notFound
  | some u => if u.status ≠ "active" then .error .invalid else .ok ()

/-- The rest of `CreateOrganizationWithAdmin`. A name that is taken inserts nothing. -/
def insertOrganization (o : Organization) (adminUserID : String) (db : Db) : Except Err Db :=
  if db.organizations.any (fun o' => o'.name = o.name) then .error .alreadyExists
  else if db.organizations.any (fun o' => o'.id = o.id) ∨
      db.memberships.any (fun m => m.key = (o.id, adminUserID)) then
    .error (.other "duplicate key value violates unique constraint")
  else if ¬ db.users.any (fun u => u.id = adminUserID) then
    .error (.other "insert violates foreign key constraint")
  else
    .ok { db with
      organizations := db.organizations ++ [o]
      memberships := db.memberships ++ [⟨o.id, adminUserID, .organizationAdmin, .active⟩] }

/-! ## Whose authority a write changes -/

/-- A write that leaves credentials and the audit trail alone and changes nobody's authority but
where `R` says so. -/
structure Touches (R : String → String → Prop) (db db₁ : Db) : Prop where
  live : ∀ k, db₁.live k = db.live k
  ids : ∀ k, db₁.ids k = db.ids k
  audit : db₁.audit = db.audit
  accounts : (db.users.map User.id).Nodup → (db₁.users.map User.id).Nodup
  active : ∀ user, (∀ org, ¬ R org user) → db₁.active user = db.active user
  elsewhere : ∀ org user, ¬ R org user → db₁.administers org user = db.administers org user

namespace Touches

variable {R : String → String → Prop} {db db₁ : Db}

theorem conserves (h : Touches R db db₁) : Conserves db db₁ := Conserves.of_eq h.live h.audit

/-- Where an organization had an administrator outside the touched authority, it still has one. -/
theorem hasAdmin (h : Touches R db db₁) {org user : String} (hR : ¬ R org user)
    (hadmin : db.administers org user = true) : db₁.hasAdmin org = true := by
  rw [Db.hasAdmin_iff]
  exact ⟨user, (h.elsewhere org user hR).trans hadmin⟩

end Touches

/-- What the membership table holds elsewhere decides authority elsewhere. -/
theorem administers_congr {db db₁ : Db} {org user : String} (hactive : db₁.active user = db.active user)
    (hm : ∀ m, m.organizationID = org → m.userID = user →
      (m ∈ db₁.memberships ↔ m ∈ db.memberships)) :
    db₁.administers org user = db.administers org user := by
  rw [Bool.eq_iff_iff, Db.administers_iff, Db.administers_iff]
  constructor
  · rintro ⟨m, hmem, rfl, rfl, hrow⟩
    refine ⟨m, (hm m rfl rfl).1 hmem, rfl, rfl, ?_⟩
    rwa [Db.adminRow, hactive] at hrow
  · rintro ⟨m, hmem, rfl, rfl, hrow⟩
    refine ⟨m, (hm m rfl rfl).2 hmem, rfl, rfl, ?_⟩
    rwa [Db.adminRow, hactive]

/-- A membership change touches one user's authority in one organization. -/
theorem touches_memberships {org user : String} {ms : List Membership} (db : Db)
    (h : ∀ m : Membership, m.key ≠ (org, user) → (m ∈ ms ↔ m ∈ db.memberships)) :
    Touches (fun o u => o = org ∧ u = user) db { db with memberships := ms } where
  live k := by cases k <;> rfl
  ids k := by cases k <;> rfl
  audit := rfl
  accounts := id
  active _ _ := rfl
  elsewhere o u hR := by
    apply administers_congr
    · rfl
    · rintro m rfl rfl
      exact h m fun hkey => hR (Prod.mk.inj hkey)

/-- Only the deleted account's row is gone. -/
theorem active_deleteUser {id user : String} (h : ¬ user = id) (db : Db) :
    (db.deleteUser id).active user = db.active user := by
  simp only [Db.active, Db.deleteUser, List.any_filter]
  congr 1
  funext u
  by_cases hu : u.id = user
  · simp [hu, h]
  · simp [hu]

theorem active_updateUser {p : User → Bool} {f : User → User} {id user : String}
    (hp : ∀ u, p u = true → u.id = id) (hf : ∀ u, (f u).id = u.id) (h : ¬ user = id) (db : Db) :
    Db.active { db with users := Table.updateWhere p f db.users } user = db.active user := by
  simp only [Db.active, Table.updateWhere, List.any_map]
  congr 1
  funext u
  by_cases hu : p u = true
  · have : ¬ id = user := fun h' => h h'.symm
    simp [hu, hf, hp u hu, this]
  · simp [hu]

/-- A change of an account's own columns. -/
theorem touches_updateUser {p : User → Bool} {f : User → User} {id : String}
    (hp : ∀ u, p u = true → u.id = id) (hf : ∀ u, (f u).id = u.id) (db : Db) :
    Touches (fun _ user => user = id) db { db with users := Table.updateWhere p f db.users } where
  live k := by cases k <;> rfl
  ids k := by cases k <;> rfl
  audit := rfl
  accounts hn := Table.nodup_updateWhere hn hf
  active _ hR := active_updateUser hp hf (hR "") db
  elsewhere org user hR := by
    apply administers_congr
    · exact active_updateUser hp hf hR db
    · exact fun _ _ _ => Iff.rfl

/-! ## The quorum -/

section Quorum

variable {b : Backend} {user : String} {external : Bool} {now : Int} {db db' : Db}

variable {org : String} {orgs : List String}

theorem mem_administered : org ∈ db.administered user ↔ db.administers org user = true := by
  rw [Db.administered, Text.sort, List.mem_insertionSort, List.mem_map, Db.administers_iff]
  constructor
  · rintro ⟨m, hm, rfl⟩
    obtain ⟨hm, hrow⟩ := List.mem_filter.1 hm
    simp only [Bool.and_eq_true, decide_eq_true_eq] at hrow
    exact ⟨m, hm, rfl, hrow.1, hrow.2⟩
  · rintro ⟨m, hm, rfl, hu, hrow⟩
    refine ⟨m, List.mem_filter.2 ⟨hm, ?_⟩, rfl⟩
    simp [hu, hrow]

/-- One organization's turn: the sweep, and an administrator or the row that says there is none. -/
theorem quorumAt_eq_ok (h : quorumAt user external now db org = .ok db') :
    ∃ actor, ∃ db₁, db₁ = db.revokeLostAdminCredentials org user actor now ∧
      (db' = db₁ ∧ db₁.hasAdmin org = true ∨
        external = true ∧ db' = db₁.log (lastAdminLost user org now)) := by
  refine ⟨if external then "directory" else "system", _, rfl, ?_⟩
  simp only [quorumAt, Db.requireActiveAdmin] at h
  split at h
  · next hok =>
    obtain rfl := Except.ok.inj h
    rw [guard_else_error_eq_ok] at hok
    exact .inl ⟨rfl, hok.1⟩
  · rw [guard_else_error_eq_ok] at h
    obtain ⟨⟨-, hexternal⟩, h⟩ := h
    obtain rfl := Except.ok.inj h
    exact .inr ⟨hexternal, rfl⟩

theorem swept_quorumAt (h : quorumAt user external now db org = .ok db') : Db.Swept db db' := by
  obtain ⟨actor, db₁, rfl, ⟨rfl, -⟩ | ⟨-, rfl⟩⟩ := quorumAt_eq_ok h
  · exact Db.swept_revokeLost org user actor now db
  · exact (Db.swept_revokeLost org user actor now db).trans (Db.swept_log _)

theorem conserves_quorumAt (hn : ∀ k, (db.ids k).Nodup)
    (h : quorumAt user external now db org = .ok db') : Conserves db db' := by
  obtain ⟨actor, db₁, rfl, ⟨rfl, -⟩ | ⟨-, rfl⟩⟩ := quorumAt_eq_ok h
  · exact Db.conserves_revokeLost hn
  · refine (Db.conserves_revokeLost hn).trans (Conserves.log fun k => ?_)
    cases k <;> simp [lastAdminLost, CredentialKind.action, Action.name]

/-- What the visit of all the organizations leaves: a sweep in which every credential that ended has
its row. -/
theorem swept_quorum
    (h : orgs.foldlM (quorumAt user external now) db = .ok db') : Db.Swept db db' := by
  apply foldlM_keeps _ (Db.Swept.refl db) h
  intro db₁ org db₂ h₁ hstep
  exact h₁.trans (swept_quorumAt hstep)

theorem conserves_quorum (hn : ∀ k, (db.ids k).Nodup)
    (h : orgs.foldlM (quorumAt user external now) db = .ok db') : Conserves db db' := by
  have both : Db.Swept db db' ∧ Conserves db db' := by
    apply foldlM_keeps _
      ⟨Db.Swept.refl db, Conserves.refl db⟩ h
    rintro db₁ org db₂ ⟨hs, hc⟩ hstep
    have hn₁ : ∀ k, (db₁.ids k).Nodup := fun k => (hn k).sublist (hs.ids k)
    exact ⟨hs.trans (swept_quorumAt hstep), hc.trans (conserves_quorumAt hn₁ hstep)⟩
  exact both.2

/-- In an organization the visit reached, the user's credentials are live only if they administer
it. -/
theorem administers_of_live_quorum {k : CredentialKind} {c : Credential}
    (h : orgs.foldlM (quorumAt user external now) db = .ok db')
    (horg : c.organizationID ∈ orgs) (hby : c.createdBy = user) (hc : c ∈ db'.live k) :
    db.administers c.organizationID user = true := by
  induction orgs generalizing db with
  | nil => exact absurd horg List.not_mem_nil
  | cons org orgs ih =>
    obtain ⟨db₁, hstep, hrest⟩ := foldlM_cons_eq_ok.1 h
    rcases List.mem_cons.1 horg with horg | horg
    · have hc₁ := (swept_quorum hrest).live k c hc
      rw [horg]
      obtain ⟨actor, db₂, rfl, ⟨rfl, -⟩ | ⟨-, rfl⟩⟩ := quorumAt_eq_ok hstep <;>
        exact Db.administers_of_live_revokeLost hc₁ horg hby
    · rw [← (swept_quorumAt hstep).administers]
      exact ih hrest horg

/-- An organization the visit reached has an administrator, or the directory's row says that it lost
the last one. -/
theorem hasAdmin_of_quorum
    (h : orgs.foldlM (quorumAt user external now) db = .ok db') (horg : org ∈ orgs) :
    db'.hasAdmin org = true ∨
      external = true ∧ ∃ rows, db'.audit = db.audit ++ rows ∧ lastAdminLost user org now ∈ rows := by
  induction orgs generalizing db with
  | nil => exact absurd horg List.not_mem_nil
  | cons org' orgs ih =>
    obtain ⟨db₁, hstep, hrest⟩ := foldlM_cons_eq_ok.1 h
    rcases List.mem_cons.1 horg with rfl | horg
    · obtain ⟨actor, db₂, rfl, ⟨rfl, hadmin⟩ | ⟨hexternal, rfl⟩⟩ := quorumAt_eq_ok hstep
      · exact .inl ((swept_quorum hrest).hasAdmin org ▸ hadmin)
      obtain ⟨rows, hrows⟩ := (Db.swept_revokeLost org user actor now db).audit
      obtain ⟨rows', hrows'⟩ := (swept_quorum hrest).audit
      refine .inr ⟨hexternal, rows ++ lastAdminLost user org now :: rows', ?_, ?_⟩
      · rw [hrows', Db.log, hrows]
        simp
      · simp
    · rcases ih hrest horg with hadmin | ⟨hexternal, rows, haudit, hrow⟩
      · exact .inl hadmin
      · obtain ⟨rows₁, hrows₁⟩ := (swept_quorumAt hstep).audit
        refine .inr ⟨hexternal, rows₁ ++ rows, ?_, List.mem_append_right _ hrow⟩
        rw [haudit, hrows₁, List.append_assoc]

theorem adminQuorum_eq_ok {write : Db → Except Err (Option Db)}
    (h : adminQuorum b user external now write db = .ok db') :
    ∃ db₁, write db = .ok (some db₁) ∧
      (db.administered user).foldlM (quorumAt user external now) db₁ = .ok db' := by
  unfold adminQuorum at h
  split at h
  · cases h
  split at h
  · cases h
  · cases h
  · next db₁ hwrite => exact ⟨db₁, hwrite, h⟩

theorem deleteRow_eq_ok {id : String} {db₁ : Db} (h : deleteRow id db = .ok (some db₁)) :
    db₁ = db.deleteUser id := by
  unfold deleteRow at h
  split at h
  · exact (Option.some.inj (Except.ok.inj h)).symm
  · cases h

end Quorum

end KyYard.Accounts

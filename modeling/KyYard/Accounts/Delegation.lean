import KyYard.Accounts.Issuance
import KyYard.Accounts.Directory

/-!
# The transactions under the audit lock

Each transaction that changes memberships, accounts or delegated credentials, by itself: the rows it
locks, what it leaves of the credentials of whoever loses authority (`Transaction.keeps_run`), and
whether an organization keeps an administrator (`hasAdmin_adminQuorum` for local changes and KySignOn,
`hasAdmin_switchedOff` for the installer's directory).
-/

namespace KyYard.Accounts

open Foundation

/-! ## The transactions -/

/-- A transaction under the audit lock. -/
inductive Transaction
  | createAgentToken (a : TenantAccess) (name scope : String) (draw : Draw)
  | setAgentTokenScope (a : TenantAccess) (id scope : String)
  | createStatusFeed (a : TenantAccess) (name : String) (draw : Draw)
  | createServicePairing (a : TenantAccess) (id : String) (draws : Nat → Nat)
  | claimServiceToken (code serviceName ip : String) (draw : Draw)
  | putMembership (a : TenantAccess) (userID role status : String)
  | removeMembership (a : TenantAccess) (userID : String)
  | deleteUser (id : String)
  | directory (payload : SyncPayload) (suffix : String)
  | installerDirectory (m : InstallerMessage)
  | revokeInstallerIdentity (issuer subject : String)

/-- An error that leaves no row to be written. -/
def silent (e : Err) : Refusal := ⟨e, none⟩

namespace Transaction

def run (b : Backend) (now : Int) : Transaction → Db → Except Refusal Db
  | createAgentToken a name scope draw => Accounts.createAgentToken a name scope draw now
  | setAgentTokenScope a id scope => Accounts.setAgentTokenScope a id scope now
  | createStatusFeed a name draw => Accounts.createStatusFeed a name draw now
  | createServicePairing a id draws => Accounts.createServicePairing a id draws now
  | claimServiceToken code serviceName ip draw => fun db =>
    (Accounts.claimServiceToken code serviceName ip draw now db).mapError silent
  | putMembership a userID role status => Accounts.putMembership b a userID role status now
  | removeMembership a userID => Accounts.removeMembership b a userID now
  | deleteUser id => fun db => (Accounts.deleteUser b id now db).mapError silent
  | directory payload suffix => syncTransaction b payload suffix now
  | installerDirectory m => fun db => (applyInstallerDirectory m now db).mapError silent
  | revokeInstallerIdentity issuer subject => fun db =>
    (Accounts.revokeInstallerIdentity issuer subject now db).mapError silent

/-- The account rows the transaction locks or writes. -/
def locks (db : Db) : Transaction → List String
  | createAgentToken a _ _ _ => [a.actorID]
  | setAgentTokenScope a _ _ => [a.actorID]
  | createStatusFeed a _ _ => [a.actorID]
  | createServicePairing a _ _ => [a.actorID]
  | claimServiceToken _ _ _ _ => []
  | putMembership a userID _ _ => [a.actorID, userID]
  | removeMembership a _ => [a.actorID]
  | deleteUser id => [id]
  | directory payload _ => ((db.userBySSO kysignon payload.id).map User.id).toList
  | installerDirectory m => [installerUserID m.issuer m.subject]
  | revokeInstallerIdentity issuer subject => [installerUserID issuer subject]

/-- The transactions an identity provider causes. -/
def external : Transaction → Bool
  | directory _ _ => true
  | installerDirectory _ => true
  | revokeInstallerIdentity _ _ => true
  | _ => false

end Transaction

/-! ## Steps that keep credentials backed -/

/-- What every transaction does: ids stay unique, a credential that is left is backed if it was, and
every one that ended with its creator's authority has its one row. -/
structure Keeps (db db' : Db) : Prop where
  ids : ∀ k, (db'.ids k).Nodup
  backed : ∀ k, ∀ c ∈ db'.live k,
    (c ∈ db.live k → db.administers c.organizationID c.createdBy = true) →
      db'.administers c.organizationID c.createdBy = true
  rows : Conserves db db' ∨
    ∀ org user, db.administers org user = true → db'.administers org user = true

/-- The tables that authority and credentials are read from are the same. -/
structure Same (db db' : Db) : Prop extends SameAuthority db db' where
  live : ∀ k, db'.live k = db.live k
  ids : ∀ k, db'.ids k = db.ids k
  audit : db'.audit = db.audit

section Keeps

variable {db db₁ db' : Db}

theorem Same.refl (db : Db) : Same db db := ⟨SameAuthority.refl db, fun _ => rfl, fun _ => rfl, rfl⟩

theorem Same.conserves (h : Same db db') : Conserves db db' := Conserves.of_eq h.live h.audit

theorem Same.keeps (h : Same db db') (hn : ∀ k, (db.ids k).Nodup) : Keeps db db' where
  ids k := (h.ids k).symm ▸ hn k
  backed k _ hc hb := (h.administers _ _).trans (hb (h.live k ▸ hc))
  rows := .inl h.conserves

/-- A write that is of no concern, before. -/
theorem Keeps.after_same (h : Same db db₁) (h' : Keeps db₁ db') : Keeps db db' where
  ids := h'.ids
  backed k c hc hb := by
    apply h'.backed k c hc
    intro hc₁
    rw [h.administers]
    exact hb (h.live k ▸ hc₁)
  rows := by
    rcases h'.rows with hrows | hgrow
    · exact .inl (h.conserves.trans hrows)
    · refine .inr fun org user hadmin => hgrow org user ?_
      rwa [h.administers]

/-- A write that is of no concern, after. -/
theorem Keeps.before_same (h : Keeps db db₁) (h' : Same db₁ db') : Keeps db db' where
  ids k := (h'.ids k).symm ▸ h.ids k
  backed k c hc hb := (h'.administers _ _).trans (h.backed k c (h'.live k ▸ hc) hb)
  rows := by
    rcases h.rows with hrows | hgrow
    · exact .inl (hrows.trans h'.conserves)
    · exact .inr fun org user hadmin => (h'.administers org user).trans (hgrow org user hadmin)

theorem Keeps.log {r : AuditRecord} (h : Keeps db db₁)
    (hr : ∀ k : CredentialKind, r.action ≠ k.action) : Keeps db (db₁.log r) where
  ids k := by
    exact h.ids k
  backed k c hc hb := by
    exact ((Db.sameAuthority_log r).administers _ _).trans (h.backed k c hc hb)
  rows := by
    rcases h.rows with hrows | hgrow
    · exact .inl (hrows.trans (Conserves.log hr))
    · exact .inr fun org user hadmin =>
        ((Db.sameAuthority_log r).administers org user).trans (hgrow org user hadmin)

theorem Issues.keeps (h : Issues db db') : Keeps db db' where
  ids := h.ids
  backed k c hc hb := by
    rw [h.administers]
    rcases h.live k c hc with hlive | hadmin
    · exact hb hlive
    · exact hadmin
  rows := .inr fun org user hadmin => (h.administers org user).trans hadmin

/-- A write whose authority only grows. -/
theorem keeps_of_grows (hn : ∀ k, (db.ids k).Nodup) (hids : ∀ k, db'.ids k = db.ids k)
    (hlive : ∀ k, db'.live k = db.live k)
    (hgrow : ∀ org user, db.administers org user = true → db'.administers org user = true) :
    Keeps db db' where
  ids k := (hids k).symm ▸ hn k
  backed k _ hc hb := hgrow _ _ (hb (hlive k ▸ hc))
  rows := .inr hgrow

/-- A write on some authority, then a sweep that leaves nothing there without it. -/
theorem keeps_of_touches {R : String → String → Prop} (hn : ∀ k, (db.ids k).Nodup)
    (ht : Touches R db db₁) (hs : Db.Swept db₁ db') (hc : Conserves db₁ db')
    (hregion : ∀ k, ∀ c ∈ db'.live k, R c.organizationID c.createdBy →
      db.administers c.organizationID c.createdBy = true →
        db₁.administers c.organizationID c.createdBy = true) : Keeps db db' where
  ids k := ((ht.ids k).symm ▸ hn k : (db₁.ids k).Nodup).sublist (hs.ids k)
  backed k c hcl hb := by
    have hlive : c ∈ db.live k := ht.live k ▸ hs.live k c hcl
    rw [hs.administers]
    by_cases hR : R c.organizationID c.createdBy
    · exact hregion k c hcl hR (hb hlive)
    · exact (ht.elsewhere _ _ hR).trans (hb hlive)
  rows := .inl (ht.conserves.trans hc)

end Keeps

/-! ## Administrators -/

/-- The transaction recorded that the organization lost its last administrator. -/
def Loss (org : String) (db db' : Db) : Prop :=
  ∃ rows, db'.audit = db.audit ++ rows ∧
    ∃ r ∈ rows, r.action = "organization.last_admin_lost" ∧ r.organizationID = org

section Members

variable {b : Backend} {a : TenantAccess} {user : String} {now : Int} {db db₁ db₂ db' : Db}

theorem settleMembership_eq_ok {details : String}
    (h : db₁.settleMembership a user now = .ok (db₂, details)) :
    db₂ = db₁.revokeLostAdminCredentials a.organizationID user a.principal now ∧
      db₂.hasAdmin a.organizationID = true := by
  simp only [Db.settleMembership] at h
  split at h
  · cases h
  next hok =>
  obtain ⟨rfl, -⟩ := Prod.mk.inj (Except.ok.inj h)
  simp only [Db.requireActiveAdmin, guard_else_error_eq_ok] at hok
  exact ⟨rfl, hok.1⟩

/-- A membership change: one user's authority in the caller's organization is touched, the change is
settled, and the request's row follows. -/
def MembershipChange (a : TenantAccess) (user : String) (now : Int) (db db' : Db) : Prop :=
  ∃ db₁ db₂ details r,
    Touches (fun o u => o = a.organizationID ∧ u = user) db db₁ ∧ db₁.users = db.users ∧
      db₁.settleMembership a user now = .ok (db₂, details) ∧
      r.action = Action.membersManage.name ∧ db' = db₂.log r

theorem membershipChange_put {role status : String}
    (h : putMembership b a user role status now db = .ok db') :
    MembershipChange a user now db db' := by
  obtain ⟨-, -, db₂, details, hop, rfl⟩ := Request.runAs_eq_ok.1 h
  split at hop
  · next role status _ _ =>
    rw [guard_error_eq_ok] at hop
    obtain ⟨-, hop⟩ := hop
    split at hop
    · cases hop
    rw [guard_error_eq_ok] at hop
    refine ⟨_, db₂, details, _, ?_, ?_, hop.2, rfl, rfl⟩
    · exact touches_memberships db fun m hm => Table.mem_upsert_of_ne _ _ hm
    · rfl
  · cases hop

theorem membershipChange_remove (h : removeMembership b a user now db = .ok db') :
    MembershipChange a user now db db' := by
  obtain ⟨-, -, db₂, details, hop, rfl⟩ := Request.runAs_eq_ok.1 h
  split at hop
  · cases hop
  rw [guard_error_eq_ok] at hop
  refine ⟨_, db₂, details, _, ?_, ?_, hop.2, rfl, rfl⟩
  · exact touches_memberships db fun m hm => by simp [hm]
  · rfl

theorem MembershipChange.keeps (h : MembershipChange a user now db db')
    (hn : ∀ k, (db.ids k).Nodup) : Keeps db db' := by
  obtain ⟨db₁, db₂, details, r, ht, -, hsettle, haction, rfl⟩ := h
  obtain ⟨rfl, -⟩ := settleMembership_eq_ok hsettle
  have hn₁ : ∀ k, (db₁.ids k).Nodup := fun k => (ht.ids k).symm ▸ hn k
  apply Keeps.log
  · apply keeps_of_touches hn ht (Db.swept_revokeLost _ _ _ _ _) (Db.conserves_revokeLost hn₁)
    rintro k c hc ⟨horg, hby⟩ -
    rw [horg, hby]
    exact Db.administers_of_live_revokeLost hc horg hby
  · intro k
    rw [haction]
    cases k <;> decide

/-- The caller's organization passed the quorum, and no other one was touched. -/
theorem MembershipChange.hasAdmin (h : MembershipChange a user now db db') {org : String}
    (hadmin : db.hasAdmin org = true) : db'.hasAdmin org = true := by
  obtain ⟨db₁, db₂, details, r, ht, -, hsettle, -, rfl⟩ := h
  obtain ⟨rfl, hquorum⟩ := settleMembership_eq_ok hsettle
  rw [(Db.sameAuthority_log r).hasAdmin]
  by_cases horg : org = a.organizationID
  · rw [horg]
    exact hquorum
  · rw [(Db.swept_revokeLost _ _ _ _ _).hasAdmin]
    obtain ⟨u, hu⟩ := Db.hasAdmin_iff.1 hadmin
    exact ht.hasAdmin (fun hR => horg hR.1) hu

end Members

section Accounts

variable {b : Backend} {user : String} {external : Bool} {now : Int} {db db' : Db}
  {write : Db → Except Err (Option Db)}

theorem keeps_adminQuorum (hn : ∀ k, (db.ids k).Nodup)
    (hwrite : ∀ db₁, write db = .ok (some db₁) → Touches (fun _ u => u = user) db db₁)
    (h : adminQuorum b user external now write db = .ok db') : Keeps db db' := by
  obtain ⟨db₁, hdb₁, hquorum⟩ := adminQuorum_eq_ok h
  have ht := hwrite db₁ hdb₁
  have hn₁ : ∀ k, (db₁.ids k).Nodup := fun k => (ht.ids k).symm ▸ hn k
  apply keeps_of_touches hn ht (swept_quorum hquorum) (conserves_quorum hn₁ hquorum)
  intro k c hc hby hadmin
  -- the organizations visited are the ones administered before the write
  rw [hby] at hadmin ⊢
  exact administers_of_live_quorum hquorum (mem_administered.2 hadmin) hby hc

theorem hasAdmin_adminQuorum
    (hwrite : ∀ db₁, write db = .ok (some db₁) → Touches (fun _ u => u = user) db db₁)
    (h : adminQuorum b user external now write db = .ok db') {org : String}
    (hadmin : db.hasAdmin org = true) :
    db'.hasAdmin org = true ∨ external = true ∧ Loss org db db' := by
  obtain ⟨db₁, hdb₁, hquorum⟩ := adminQuorum_eq_ok h
  have ht := hwrite db₁ hdb₁
  by_cases horg : org ∈ db.administered user
  · rcases hasAdmin_of_quorum hquorum horg with hadmin' | ⟨hexternal, rows, haudit, hrow⟩
    · exact .inl hadmin'
    · rw [ht.audit] at haudit
      exact .inr ⟨hexternal, rows, haudit, _, hrow, rfl, rfl⟩
  · -- somebody else administers it, and their authority was not touched
    obtain ⟨u, hu⟩ := Db.hasAdmin_iff.1 hadmin
    have hne : ¬ u = user := fun hu' => horg (mem_administered.2 (hu' ▸ hu))
    left
    rw [(swept_quorum hquorum).hasAdmin]
    exact ht.hasAdmin hne hu

theorem touches_deleteRow {db₁ : Db} (h : deleteRow user db = .ok (some db₁)) :
    Touches (fun _ u => u = user) db db₁ := by
  rw [deleteRow_eq_ok h]
  exact
    { live := fun k => by cases k <;> rfl
      ids := fun k => by cases k <;> rfl
      audit := rfl
      accounts := fun hn => hn.sublist (List.filter_sublist.map _)
      active := fun _ hR => active_deleteUser (hR "") db
      elsewhere := fun org u hR => by
        apply administers_congr
        · exact active_deleteUser hR db
        · rintro m - rfl
          simp [Db.deleteUser, hR] }

theorem touches_identityRow {u : User} {db₁ : Db} (h : identityRow b u db = .ok (some db₁)) :
    Touches (fun _ user => user = u.id) db db₁ := by
  obtain ⟨f, hf, rfl⟩ := identityRow_frame h
  apply touches_updateUser
  · exact fun _ hu => of_decide_eq_true hu
  · exact fun u => (hf u).1

end Accounts

/-! ## Directories -/

section Directories

variable {b : Backend} {now : Int} {db db' : Db}

theorem same_deleteSessions (id : String) (db : Db) : Same db (db.deleteSessions id) := by
  refine ⟨⟨rfl, rfl⟩, ?_, ?_, rfl⟩
  · intro k
    cases k <;> rfl
  · intro k
    cases k <;> rfl

variable {payload : SyncPayload} {suffix : String}

theorem same_claimEvent (h : claimEvent payload now db = .ok db') : Same db db' := by
  simp only [claimEvent, guard_error_eq_ok] at h
  obtain ⟨-, -, h⟩ := h
  obtain rfl := Except.ok.inj h
  refine ⟨⟨rfl, rfl⟩, ?_, ?_, rfl⟩
  · intro k
    cases k <;> rfl
  · intro k
    cases k <;> rfl

/-- The same memberships, and whoever was active is: whoever had authority has it. -/
theorem administers_of_active {org user : String} (hm : db'.memberships = db.memberships)
    (hactive : ∀ user, db.active user = true → db'.active user = true)
    (h : db.administers org user = true) : db'.administers org user = true := by
  obtain ⟨m, hmem, horg, huser, hrow⟩ := Db.administers_iff.1 h
  rw [Db.administers_iff]
  refine ⟨m, hm ▸ hmem, horg, huser, ?_⟩
  simp only [Db.adminRow, Bool.and_eq_true] at hrow ⊢
  exact ⟨hrow.1, hactive m.userID hrow.2⟩

theorem active_concat {u : User} {user : String} (h : db.active user = true) :
    Db.active { db with users := db.users ++ [u] } user = true := by
  simp only [Db.active, List.any_append, Bool.or_eq_true] at h ⊢
  exact .inl h

/-- A new account has a new id, and is all that changes for authority. -/
theorem createUser_eq_ok {user : User} (h : db.createUser b user = .ok db') :
    ∃ u, (∀ v ∈ db.users, v.id ≠ u.id) ∧ Same { db with users := db.users ++ [u] } db' := by
  obtain ⟨hfresh, codes, is, rfl⟩ := createUser_frame h
  refine ⟨{ user with recoveryCodesHash := codes }, hfresh, ⟨rfl, rfl⟩, ?_, ?_, rfl⟩
  · intro k
    cases k <;> rfl
  · intro k
    cases k <;> rfl

/-- What an applied event did: nothing, a new account, an update of the account it names, whose
sessions end unless its status is as it was, or that account's deletion. -/
inductive Applied (b : Backend) (payload : SyncPayload) (now : Int) (db db' : Db) : Prop
  | nothing (h : db' = db)
  | created (user : User) (hnew : user.passwordHash = "" ∧ user.ssoProvider = kysignon)
      (h : db.createUser b user = .ok db')
  | updated (u new : User) (db₁ : Db) (haccount : db.userBySSO kysignon payload.id = some u)
      (hid : new.id = u.id) (h : updateUserIdentity b new now db = .ok db₁)
      (hafter : db' = db₁.deleteSessions u.id ∨ db' = db₁ ∧ new.status = u.status)
  | deleted (u : User) (haccount : db.userBySSO kysignon payload.id = some u)
      (h : directoryDelete b u.id now db = .ok db')

theorem userBySSO_of_directoryAccount {u : User} (h : directoryAccount payload db = .ok (some u)) :
    db.userBySSO kysignon payload.id = some u := by
  unfold directoryAccount at h
  split at h
  · cases h
  next existing haccount =>
  rw [guard_error_eq_ok] at h
  rw [haccount, Option.some.inj (Except.ok.inj h.2)]

theorem applied_applyUpsert
    (h : applyUpsert b payload suffix now db = .ok db') : Applied b payload now db db' := by
  unfold applyUpsert at h
  split at h
  · cases h
  · next existing haccount =>
    split at h
    · cases h
    next db₁ hupdate =>
    obtain rfl := Except.ok.inj h
    refine .updated existing (payload.onto existing) db₁ (userBySSO_of_directoryAccount haccount)
      rfl hupdate ?_
    split
    · exact .inl rfl
    · next hsame =>
      rw [not_or, not_not, not_not] at hsame
      exact .inr ⟨rfl, hsame.2.symm⟩
  · rw [guard_error_eq_ok] at h
    obtain ⟨-, h⟩ := h
    exact .created _ ⟨rfl, rfl⟩ (mapError_eq_ok.1 h)

theorem applied_apply
    (h : apply b payload suffix now db = .ok db') : Applied b payload now db db' := by
  unfold apply at h
  split at h
  · exact applied_applyUpsert h
  · exact applied_applyUpsert h
  · unfold applyDeactivated at h
    split at h
    · cases h
    · exact .nothing (Except.ok.inj h).symm
    · next existing haccount =>
      obtain ⟨db₁, hupdate, rfl⟩ := map_eq_ok.1 h
      exact .updated existing { existing with status := "inactive" } db₁
        (userBySSO_of_directoryAccount haccount) rfl hupdate (.inl rfl)
  · unfold applyDeleted at h
    split at h
    · cases h
    · exact .nothing (Except.ok.inj h).symm
    · next existing haccount =>
      exact .deleted existing (userBySSO_of_directoryAccount haccount) h
  · exact .nothing (Except.ok.inj h).symm

/-- Ending an account's sessions is of no concern to authority. -/
theorem same_of_after {u new : User} {db₁ : Db}
    (hafter : db' = db₁.deleteSessions u.id ∨ db' = db₁ ∧ new.status = u.status) : Same db₁ db' := by
  rcases hafter with rfl | ⟨rfl, -⟩
  · exact same_deleteSessions u.id db₁
  · exact Same.refl db'

theorem Applied.keeps (h : Applied b payload now db db')
    (hn : ∀ k, (db.ids k).Nodup) : Keeps db db' := by
  cases h with
  | nothing h =>
    rw [h]
    exact (Same.refl db).keeps hn
  | created _ _ h =>
    obtain ⟨u, -, hsame⟩ := createUser_eq_ok h
    refine Keeps.before_same (keeps_of_grows hn ?_ ?_ ?_) hsame
    · intro k
      cases k <;> rfl
    · intro k
      cases k <;> rfl
    · intro org user hadmin
      refine administers_of_active ?_ ?_ hadmin
      · rfl
      · exact fun _ => active_concat
  | updated _ _ _ _ _ h hafter =>
    exact (keeps_adminQuorum hn (fun db₂ => touches_identityRow) h).before_same
      (same_of_after hafter)
  | deleted _ _ h => exact keeps_adminQuorum hn (fun db₁ => touches_deleteRow) h

theorem Applied.hasAdmin (h : Applied b payload now db db') {org : String}
    (hadmin : db.hasAdmin org = true) : db'.hasAdmin org = true ∨ Loss org db db' := by
  cases h with
  | nothing h =>
    rw [h]
    exact .inl hadmin
  | created _ _ h =>
    obtain ⟨u, -, hsame⟩ := createUser_eq_ok h
    obtain ⟨v, hv⟩ := Db.hasAdmin_iff.1 hadmin
    left
    rw [hsame.hasAdmin, Db.hasAdmin_iff]
    refine ⟨v, administers_of_active ?_ ?_ hv⟩
    · rfl
    · exact fun _ => active_concat
  | updated _ _ _ _ _ h hafter =>
    have hsame := same_of_after hafter
    rcases hasAdmin_adminQuorum (fun db₂ => touches_identityRow) h hadmin with
      hadmin | ⟨-, rows, haudit, hrow⟩
    · exact .inl ((hsame.hasAdmin org).trans hadmin)
    · exact .inr ⟨rows, hsame.audit.trans haudit, hrow⟩
  | deleted _ _ h =>
    rcases hasAdmin_adminQuorum (fun db₁ => touches_deleteRow) h hadmin with hadmin | ⟨-, hloss⟩
    · exact .inl hadmin
    · exact .inr hloss

theorem applyDirectoryEvent_eq_ok (h : applyDirectoryEvent b payload suffix now db = .ok db') :
    ∃ db₁, claimEvent payload now db = .ok db₁ ∧ apply b payload suffix now db₁ = .ok db' := by
  unfold applyDirectoryEvent at h
  split at h
  · cases h
  next db₁ hclaim => exact ⟨db₁, hclaim, h⟩

theorem keeps_applyDirectoryEvent
    (hn : ∀ k, (db.ids k).Nodup) (h : applyDirectoryEvent b payload suffix now db = .ok db') :
    Keeps db db' := by
  obtain ⟨db₁, hclaim, happly⟩ := applyDirectoryEvent_eq_ok h
  have hsame := same_claimEvent hclaim
  have hn₁ : ∀ k, (db₁.ids k).Nodup := fun k => (hsame.ids k).symm ▸ hn k
  exact ((applied_apply happly).keeps hn₁).after_same hsame

theorem hasAdmin_applyDirectoryEvent {org : String}
    (h : applyDirectoryEvent b payload suffix now db = .ok db') (hadmin : db.hasAdmin org = true) :
    db'.hasAdmin org = true ∨ Loss org db db' := by
  obtain ⟨db₁, hclaim, happly⟩ := applyDirectoryEvent_eq_ok h
  have hsame := same_claimEvent hclaim
  rcases (applied_apply happly).hasAdmin ((hsame.hasAdmin org).trans hadmin) with
    hadmin | ⟨rows, haudit, hrow⟩
  · exact .inl hadmin
  · exact .inr ⟨rows, hsame.audit ▸ haudit, hrow⟩

end Directories

/-! ## The installer -/

section Installer

variable {id : String} {now : Int} {db db' : Db}

theorem same_deleteGrants (id : String) (db : Db) : Same db (db.deleteGrants id) := by
  refine ⟨⟨rfl, rfl⟩, ?_, ?_, rfl⟩
  · intro k
    cases k <;> rfl
  · intro k
    cases k <;> rfl

theorem touches_installerUpdate (id : String) (active : Bool) (db : Db) :
    Touches (fun _ user => user = id) db (installerUpdate id active db) := by
  apply touches_updateUser
  · intro u hu
    simp only [installerRow, Bool.and_eq_true, decide_eq_true_eq] at hu
    exact hu.1.1
  · exact fun _ => rfl

theorem swept_revokeIn (orgs : List String) (user actor : String) (now : Int) (db : Db) :
    Db.Swept db (db.revokeIn orgs user actor now) := by
  induction orgs generalizing db with
  | nil => exact Db.Swept.refl db
  | cons org orgs ih => exact (Db.swept_revokeLost org user actor now db).trans (ih _)

theorem conserves_revokeIn (orgs : List String) (user actor : String) (now : Int) {db : Db}
    (hn : ∀ k, (db.ids k).Nodup) : Conserves db (db.revokeIn orgs user actor now) := by
  induction orgs generalizing db with
  | nil => exact Conserves.refl db
  | cons org orgs ih =>
    apply (Db.conserves_revokeLost hn).trans
    apply ih
    exact fun k => (hn k).sublist ((Db.swept_revokeLost org user actor now db).ids k)

theorem administers_of_live_revokeIn {orgs : List String} {user actor : String}
    {k : CredentialKind} {c : Credential} (horg : c.organizationID ∈ orgs) (hby : c.createdBy = user)
    (hc : c ∈ (db.revokeIn orgs user actor now).live k) :
    db.administers c.organizationID user = true := by
  induction orgs generalizing db with
  | nil => exact absurd horg List.not_mem_nil
  | cons org orgs ih =>
    rcases List.mem_cons.1 horg with horg | horg
    · rw [horg]
      exact Db.administers_of_live_revokeLost ((swept_revokeIn orgs user actor now _).live k c hc)
        horg hby
    · rw [← (Db.swept_revokeLost org user actor now db).administers]
      exact ih horg hc

/-- Whoever administers an organization is named its administrator. -/
theorem mem_adminOrgs {org user : String} (h : db.administers org user = true) :
    org ∈ db.adminOrgs user := by
  obtain ⟨m, hm, rfl, rfl, hrow⟩ := Db.administers_iff.1 h
  simp only [Db.adminRow, Bool.and_eq_true] at hrow
  refine List.mem_map.2 ⟨m, List.mem_filter.2 ⟨hm, ?_⟩, rfl⟩
  simp [hrow.1.1]

/-- An account switched off, before its sweep. -/
def switchedOff (id : String) (db : Db) : Db := (installerUpdate id false db).deleteGrants id

theorem touches_switchedOff (id : String) (db : Db) :
    Touches (fun _ user => user = id) db (switchedOff id db) := by
  have ht := touches_installerUpdate id false db
  have hs := same_deleteGrants id (installerUpdate id false db)
  constructor
  · exact fun k => (hs.live k).trans (ht.live k)
  · exact fun k => (hs.ids k).trans (ht.ids k)
  · exact hs.audit.trans ht.audit
  · exact ht.accounts
  · exact ht.active
  · exact fun org user hR => (hs.administers org user).trans (ht.elsewhere org user hR)

theorem installerAvailability_eq_ok {active : Bool}
    (h : installerAvailability id active now db = .ok db') :
    (db.users.filter (installerRow id)).length = 1 ∧
      (active = true ∧ db' = installerUpdate id true db ∨
        active = false ∧ db' = (switchedOff id db).revokeIn ((switchedOff id db).adminOrgs id) id
          "directory" now) := by
  simp only [installerAvailability, guard_error_eq_ok, not_not] at h
  refine ⟨h.1, ?_⟩
  replace h := h.2
  cases active with
  | true => exact .inl ⟨rfl, (Except.ok.inj h).symm⟩
  | false => exact .inr ⟨rfl, (Except.ok.inj h).symm⟩

theorem active_installerUpdate {user : String} (h : db.active user = true) :
    (installerUpdate id true db).active user = true := by
  simp only [Db.active, List.any_eq_true, Bool.and_eq_true] at h ⊢
  obtain ⟨u, hu, hid, hstatus⟩ := h
  refine ⟨_, Table.mem_updateWhere.2 ⟨u, hu, rfl⟩, ?_⟩
  split
  · exact ⟨hid, rfl⟩
  · exact ⟨hid, hstatus⟩

theorem keeps_installerAvailability {active : Bool} (hn : ∀ k, (db.ids k).Nodup)
    (h : installerAvailability id active now db = .ok db') : Keeps db db' := by
  obtain ⟨-, ⟨-, rfl⟩ | ⟨-, rfl⟩⟩ := installerAvailability_eq_ok h
  · have ht := touches_installerUpdate id true db
    apply keeps_of_grows hn ht.ids ht.live
    intro org user hadmin
    refine administers_of_active ?_ ?_ hadmin
    · rfl
    · exact fun _ => active_installerUpdate
  · have ht := touches_switchedOff id db
    have hn₁ : ∀ k, ((switchedOff id db).ids k).Nodup := fun k => (ht.ids k).symm ▸ hn k
    apply keeps_of_touches hn ht (swept_revokeIn _ _ _ _ _) (conserves_revokeIn _ _ _ _ hn₁)
    intro k c hc hby hadmin
    -- the memberships are the ones from before the update
    have horg : c.organizationID ∈ (switchedOff id db).adminOrgs id := by
      rw [hby] at hadmin
      show c.organizationID ∈ db.adminOrgs id
      exact mem_adminOrgs hadmin
    rw [hby]
    exact administers_of_live_revokeIn horg hby hc

/-- An account the directory switched off administers nothing. -/
theorem active_switchedOff (hids : (db.users.map User.id).Nodup)
    (hone : (db.users.filter (installerRow id)).length = 1) :
    (switchedOff id db).active id = false := by
  obtain ⟨v, hv⟩ := List.length_eq_one_iff.1 hone
  obtain ⟨hvmem, hvrow⟩ := List.mem_filter.1 (hv ▸ List.mem_singleton_self v :
    v ∈ db.users.filter (installerRow id))
  simp only [Db.active, List.any_eq_false, Bool.and_eq_true, decide_eq_true_eq, not_and]
  intro u hu hid
  obtain ⟨u₀, hu₀, rfl⟩ := Table.mem_updateWhere.1 hu
  split at hid <;> rename_i hrow
  · simp [hrow]
  · -- the one account with the id is the installer's
    have hvid : v.id = id := by
      simp only [installerRow, Bool.and_eq_true, decide_eq_true_eq] at hvrow
      exact hvrow.1.1
    obtain rfl := List.inj_on_of_nodup_map hids hu₀ hvmem (hid.trans hvid.symm)
    exact absurd hvrow hrow

theorem hasAdmin_switchedOff {org : String} (hids : (db.users.map User.id).Nodup)
    (hone : (db.users.filter (installerRow id)).length = 1) :
    (switchedOff id db).hasAdmin org = true ↔
      ∃ other, other ≠ id ∧ db.administers org other = true := by
  have ht := touches_switchedOff id db
  rw [Db.hasAdmin_iff]
  constructor
  · rintro ⟨user, hadmin⟩
    have hne : user ≠ id := by
      rintro rfl
      obtain ⟨m, -, -, huser, hrow⟩ := Db.administers_iff.1 hadmin
      simp only [Db.adminRow, huser, active_switchedOff hids hone, Bool.and_false] at hrow
      cases hrow
    exact ⟨user, hne, (ht.elsewhere org user hne).symm.trans hadmin⟩
  · rintro ⟨other, hne, hadmin⟩
    exact ⟨other, (ht.elsewhere org other hne).trans hadmin⟩

end Installer

/-! ## Every transaction -/

section Run

variable {b : Backend} {now : Int} {db db' : Db}

theorem same_putFence (f : InstallerFence) (db : Db) : Same db (db.putFence f) := by
  refine ⟨⟨rfl, rfl⟩, ?_, ?_, rfl⟩
  · intro k
    cases k <;> rfl
  · intro k
    cases k <;> rfl

/-- A transaction of the installer's directory: it changed nothing, or it made the account `id`
available or not, and its row follows. -/
inductive Switched (now : Int) (db db' : Db) : Option (String × Bool) → Prop
  | nothing (h : db' = db) : Switched now db db' none
  | account (id : String) (active : Bool) (db₁ db₂ : Db) (action details : String)
      (havail : installerAvailability id active now db = .ok db₁) (hsame : Same db₁ db₂)
      (haction : Text.hasPrefix action "installer." = true)
      (h : db' = db₂.log (installerAudit action id details now)) :
      Switched now db db' (some (id, active))

/-- What a message of the installer's directory is about to do. -/
def InstallerMessage.switches (m : InstallerMessage) (db : Db) : Option (String × Bool) :=
  match m.asks db with
  | .ok (some (_, active)) => some (installerUserID m.issuer m.subject, active)
  | _ => none

theorem switched_applyInstallerDirectory {m : InstallerMessage}
    (h : applyInstallerDirectory m now db = .ok db') : Switched now db db' (m.switches db) := by
  unfold applyInstallerDirectory at h
  unfold InstallerMessage.switches
  split at h
  · cases h
  · next hasks =>
    rw [hasks]
    exact .nothing (Except.ok.inj h).symm
  · next n active hasks =>
    obtain ⟨db₁, havail, rfl⟩ := map_eq_ok.1 h
    rw [hasks]
    exact .account _ active db₁ _ _ _ havail (same_putFence _ db₁) (by decide) rfl

/-- What `RevokeInstallerIdentity` is about to do. -/
def revocation (issuer subject : String) (db : Db) : Option (String × Bool) :=
  match installerAvailable issuer subject db with
  | .ok true => some (installerUserID issuer subject, false)
  | _ => none

theorem switched_revokeInstallerIdentity {issuer subject : String}
    (h : revokeInstallerIdentity issuer subject now db = .ok db') :
    Switched now db db' (revocation issuer subject db) := by
  unfold revokeInstallerIdentity at h
  unfold revocation
  split at h
  · cases h
  · next havailable =>
    rw [havailable]
    exact .nothing (Except.ok.inj h).symm
  · next havailable =>
    obtain ⟨db₁, havail, rfl⟩ := map_eq_ok.1 h
    rw [havailable]
    exact .account _ false db₁ db₁ _ _ havail (Same.refl db₁) (by decide) rfl

theorem Switched.keeps {s : Option (String × Bool)} (h : Switched now db db' s)
    (hn : ∀ k, (db.ids k).Nodup) : Keeps db db' := by
  cases h with
  | nothing h =>
    rw [h]
    exact (Same.refl db).keeps hn
  | account _ _ _ _ _ _ havail hsame haction h =>
    rw [h]
    apply Keeps.log
    · exact (keeps_installerAvailability hn havail).before_same hsame
    · rintro k (rfl : _ = k.action)
      revert haction
      cases k <;> decide

/-- Whatever a transaction commits keeps credentials backed. -/
theorem Transaction.keeps_run {t : Transaction} (hn : ∀ k, (db.ids k).Nodup)
    (h : t.run b now db = .ok db') : Keeps db db' := by
  cases t with
  | createAgentToken => exact (issues_createAgentToken hn h).keeps
  | setAgentTokenScope => exact (issues_setAgentTokenScope hn h).keeps
  | createStatusFeed => exact (issues_createStatusFeed hn h).keeps
  | createServicePairing => exact (issues_createServicePairing hn h).keeps
  | claimServiceToken =>
    exact (issues_claimServiceToken hn (mapError_eq_ok.1 h)).keeps
  | putMembership => exact (membershipChange_put h).keeps hn
  | removeMembership => exact (membershipChange_remove h).keeps hn
  | deleteUser =>
    exact keeps_adminQuorum hn (fun db₁ => touches_deleteRow) (mapError_eq_ok.1 h)
  | directory => exact keeps_applyDirectoryEvent hn (mapError_eq_ok.1 h)
  | installerDirectory =>
    exact (switched_applyInstallerDirectory (mapError_eq_ok.1 h)).keeps hn
  | revokeInstallerIdentity =>
    exact (switched_revokeInstallerIdentity (mapError_eq_ok.1 h)).keeps hn

end Run

end KyYard.Accounts

import KyYard.Accounts.Delegation

/-!
# Credentials and administrators in every interleaving

The transactions of `Delegation` in any order, with the audit rows of refused requests written
whenever their turn comes. `CreateOrganizationWithAdmin` takes no audit lock and is two steps: it
reads the administrator's account, whose row PostgreSQL then keeps locked, and commits later. On
SQLite the commit fails if anything was written since.

A credential that works was created by somebody who administers its organization now, and whoever
loses that authority loses the credential in the same transaction, which writes exactly one row for
it (`credentials_never_outlive_authority`). An organization keeps an active administrator, or a
directory's transaction records the loss, exactly where the installer's directory does not switch
the last one off (`administrator_kept_iff`); a new organization starts with one
(`hasAdmin_of_created`).
-/

namespace KyYard.Accounts

open Foundation

/-! ## Which accounts a transaction writes -/

/-- Account ids stay unique, and an account that is not in the list stays active. -/
structure Confined (users : List String) (db db' : Db) : Prop where
  accounts : (db.users.map User.id).Nodup → (db'.users.map User.id).Nodup
  active : ∀ user ∉ users, db.active user = true → db'.active user = true

section Confined

variable {b : Backend} {users : List String} {now : Int} {db db₁ db' : Db}

theorem Confined.trans (h : Confined users db db₁) (h' : Confined users db₁ db') :
    Confined users db db' :=
  ⟨fun hn => h'.accounts (h.accounts hn), fun u hu ha => h'.active u hu (h.active u hu ha)⟩

theorem confined_of_users (h : db'.users = db.users) : Confined users db db' := by
  constructor
  · rw [h]
    exact id
  · intro user _ hactive
    unfold Db.active
    rw [h]
    exact hactive

theorem Touches.confined {user : String} (h : Touches (fun _ u => u = user) db db')
    (huser : user ∈ users) : Confined users db db' := by
  refine ⟨h.accounts, ?_⟩
  intro u hu hactive
  rw [h.active u fun _ heq => hu (heq ▸ huser)]
  exact hactive

theorem confined_adminQuorum {user : String} {external : Bool} {write : Db → Except Err (Option Db)}
    (huser : user ∈ users)
    (hwrite : ∀ db₁, write db = .ok (some db₁) → Touches (fun _ u => u = user) db db₁)
    (h : adminQuorum b user external now write db = .ok db') : Confined users db db' := by
  obtain ⟨db₁, hdb₁, hquorum⟩ := adminQuorum_eq_ok h
  exact ((hwrite db₁ hdb₁).confined huser).trans (confined_of_users (swept_quorum hquorum).users)

theorem MembershipChange.confined {a : TenantAccess} {user : String}
    (h : MembershipChange a user now db db') : Confined users db db' := by
  obtain ⟨db₁, db₂, details, r, -, husers, hsettle, -, rfl⟩ := h
  obtain ⟨rfl, -⟩ := settleMembership_eq_ok hsettle
  apply confined_of_users
  exact (Db.swept_revokeLost _ _ _ _ _).users.trans husers

theorem Applied.confined {payload : SyncPayload} (h : Applied b payload now db db')
    (husers : ∀ u, db.userBySSO kysignon payload.id = some u → u.id ∈ users) :
    Confined users db db' := by
  cases h with
  | nothing h => exact confined_of_users (congrArg Db.users h)
  | created _ _ h =>
    obtain ⟨u, hfresh, hsame⟩ := createUser_eq_ok h
    refine Confined.trans ?_ (confined_of_users hsame.users)
    exact ⟨fun hn => Table.nodup_concat hn hfresh, fun _ _ => active_concat⟩
  | updated u new _ haccount hid h hafter =>
    have hmem : new.id ∈ users := hid ▸ husers u haccount
    exact (confined_adminQuorum hmem (fun db₂ => touches_identityRow) h).trans
      (confined_of_users (same_of_after hafter).users)
  | deleted u haccount h =>
    exact confined_adminQuorum (husers u haccount) (fun db₁ => touches_deleteRow) h

theorem Switched.confined {s : Option (String × Bool)} (h : Switched now db db' s)
    (husers : ∀ id active, s = some (id, active) → id ∈ users) : Confined users db db' := by
  cases h with
  | nothing h => exact confined_of_users (congrArg Db.users h)
  | account id active _ _ _ _ havail hsame _ h =>
    have hid : id ∈ users := husers id active rfl
    rw [h]
    refine Confined.trans ?_ (confined_of_users hsame.users)
    obtain ⟨-, ⟨-, rfl⟩ | ⟨-, rfl⟩⟩ := installerAvailability_eq_ok havail
    · exact (touches_installerUpdate id true db).confined hid
    · exact ((touches_switchedOff id db).confined hid).trans
        (confined_of_users (swept_revokeIn _ _ _ _ _).users)

/-- A transaction writes no account but the ones it locks. -/
theorem Transaction.confined_run {t : Transaction} (hn : ∀ k, (db.ids k).Nodup)
    (h : t.run b now db = .ok db') : Confined (t.locks db) db db' := by
  cases t with
  | createAgentToken =>
    exact confined_of_users (issues_createAgentToken hn h).users
  | setAgentTokenScope =>
    exact confined_of_users (issues_setAgentTokenScope hn h).users
  | createStatusFeed => exact confined_of_users (issues_createStatusFeed hn h).users
  | createServicePairing =>
    exact confined_of_users (issues_createServicePairing hn h).users
  | claimServiceToken =>
    exact confined_of_users (issues_claimServiceToken hn (mapError_eq_ok.1 h)).users
  | putMembership => exact (membershipChange_put h).confined
  | removeMembership => exact (membershipChange_remove h).confined
  | deleteUser id =>
    exact confined_adminQuorum (List.mem_singleton_self id) (fun db₁ => touches_deleteRow)
      (mapError_eq_ok.1 h)
  | directory payload =>
    obtain ⟨db₁, hclaim, happly⟩ := applyDirectoryEvent_eq_ok (mapError_eq_ok.1 h)
    refine Confined.trans (confined_of_users (same_claimEvent hclaim).users) ?_
    apply (applied_apply happly).confined
    intro u hu
    -- claiming the event leaves the accounts and their identities alone
    simp only [claimEvent, guard_error_eq_ok] at hclaim
    obtain rfl := Except.ok.inj hclaim.2.2
    have hu' : db.userBySSO kysignon payload.id = some u := hu
    simp [locks, hu']
  | installerDirectory =>
    apply (switched_applyInstallerDirectory (mapError_eq_ok.1 h)).confined
    intro id active hs
    unfold InstallerMessage.switches at hs
    split at hs
    · obtain ⟨rfl, -⟩ := Prod.mk.inj (Option.some.inj hs)
      exact List.mem_singleton_self _
    · cases hs
  | revokeInstallerIdentity =>
    apply (switched_revokeInstallerIdentity (mapError_eq_ok.1 h)).confined
    intro id active hs
    unfold revocation at hs
    split at hs
    · obtain ⟨rfl, -⟩ := Prod.mk.inj (Option.some.inj hs)
      exact List.mem_singleton_self _
    · cases hs

end Confined

/-! ## The system -/

/-- `CreateOrganizationWithAdmin` between its read and its commit; `snapshot` counts the commits it
has seen. -/
structure Creation where
  organization : Organization
  admin : String
  snapshot : Nat
deriving DecidableEq

/-- The database, the audit rows of refused requests that are still to be written, and the creations
in flight. -/
structure World where
  db : Db
  unlogged : List AuditRecord
  creating : List Creation
  commits : Nat
deriving DecidableEq

/-- The operations on the world. -/
inductive Op
  | request (t : Transaction) (now : Int)
  | logAudit (r : AuditRecord)
  | openOrganization (o : Organization) (admin : String)
  | commitOrganization (c : Creation)
  | rollBack (c : Creation)

/-- Why an operation cannot take place now: it waits for a row lock, or there is nothing of the
kind in flight. -/
inductive Blocked
  | waits
  | absent
deriving DecidableEq

namespace World

variable (w : World)

/-- A creation in flight holds the account's row, which PostgreSQL locks. -/
def held (b : Backend) (users : List String) : Bool :=
  b.driver = .postgres && w.creating.any fun c => c.admin ∈ users

def commit (db : Db) : World := { w with db := db, commits := w.commits + 1 }

def close (c : Creation) : World := { w with creating := w.creating.erase c }

end World

def step (b : Backend) (op : Op) (w : World) : Except Blocked World :=
  match op with
  | .request t now =>
    if w.held b (t.locks w.db) then .error .waits
    else
      match t.run b now w.db with
      | .ok db => .ok (w.commit db)
      | .error r => .ok { w with unlogged := w.unlogged ++ r.record.toList }
  | .logAudit r =>
    if r ∈ w.unlogged then
      .ok { w.commit (w.db.log r) with unlogged := w.unlogged.erase r }
    else .error .absent
  | .openOrganization o admin =>
    if w.held b [admin] then .error .waits
    else
      match readAdmin admin w.db with
      | .ok () => .ok { w with creating := w.creating ++ [⟨o, admin, w.commits⟩] }
      | .error _ => .ok w
  | .commitOrganization c =>
    if c ∉ w.creating then .error .absent
    -- SQLite cannot turn a read of an older state into a write
    else if b.driver = .sqlite ∧ c.snapshot ≠ w.commits then .ok (w.close c)
    else
      match insertOrganization c.organization c.admin w.db with
      | .ok db => .ok ((w.close c).commit db)
      | .error _ => .ok (w.close c)
  | .rollBack c => if c ∈ w.creating then .ok (w.close c) else .error .absent

/-- Any order of operations. -/
def machine (b : Backend) : Machine World Op Blocked := ⟨step b⟩

/-! ## What a step does to the database -/

/-- A step leaves the database, commits a transaction or a new organization, or writes a row. -/
inductive Effect (b : Backend) : Op → Db → Db → Prop
  | none (op : Op) (db : Db) (hop : ∀ t now, op ≠ .request t now) : Effect b op db db
  | refused (t : Transaction) (now : Int) (db : Db) (r : Refusal) (h : t.run b now db = .error r) :
      Effect b (.request t now) db db
  | request (t : Transaction) (now : Int) (db db' : Db) (h : t.run b now db = .ok db') :
      Effect b (.request t now) db db'
  | logged (r : AuditRecord) (db : Db) : Effect b (.logAudit r) db (db.log r)
  | created (c : Creation) (db db' : Db)
      (h : insertOrganization c.organization c.admin db = .ok db') :
      Effect b (.commitOrganization c) db db'

variable {b : Backend} {op : Op} {w w' : World}

theorem effect_of_step (h : step b op w = .ok w') : Effect b op w.db w'.db := by
  cases op with
  | request t now =>
    simp only [step, guard_error_eq_ok] at h
    obtain ⟨-, h⟩ := h
    split at h
    · next db hrun =>
      obtain rfl := Except.ok.inj h
      exact .request t now _ _ hrun
    · next r hrun =>
      obtain rfl := Except.ok.inj h
      exact .refused t now _ r hrun
  | logAudit r =>
    obtain ⟨-, rfl⟩ := ok_of_guard h
    exact .logged r _
  | openOrganization =>
    simp only [step, guard_error_eq_ok] at h
    obtain ⟨-, h⟩ := h
    split at h
    · obtain rfl := Except.ok.inj h
      exact .none _ _ (by simp)
    · obtain rfl := Except.ok.inj h
      exact .none _ _ (by simp)
  | commitOrganization c =>
    simp only [step, guard_error_eq_ok] at h
    obtain ⟨-, h⟩ := h
    split at h
    · obtain rfl := Except.ok.inj h
      exact .none _ _ (by simp)
    split at h
    · next db hinsert =>
      obtain rfl := Except.ok.inj h
      exact .created c _ _ hinsert
    · obtain rfl := Except.ok.inj h
      exact .none _ _ (by simp)
  | rollBack =>
    obtain ⟨-, rfl⟩ := ok_of_guard h
    exact .none _ _ (by simp)

/-! ## New organizations -/

variable {o : Organization} {db db' : Db}

theorem insertOrganization_eq_ok {admin : String} (h : insertOrganization o admin db = .ok db') :
    db' = { db with
      organizations := db.organizations ++ [o]
      memberships := db.memberships ++ [⟨o.id, admin, .organizationAdmin, .active⟩] } := by
  simp only [insertOrganization, guard_error_eq_ok] at h
  exact (Except.ok.inj h.2.2.2).symm

/-- A membership more takes no authority away. -/
theorem administers_insertOrganization {admin org user : String}
    (h : insertOrganization o admin db = .ok db') (hadmin : db.administers org user = true) :
    db'.administers org user = true := by
  rw [insertOrganization_eq_ok h]
  obtain ⟨m, hm, horg, huser, hrow⟩ := Db.administers_iff.1 hadmin
  rw [Db.administers_iff]
  exact ⟨m, List.mem_append_left _ hm, horg, huser, hrow⟩

theorem keeps_insertOrganization {admin : String}
    (hn : ∀ k, (db.ids k).Nodup) (h : insertOrganization o admin db = .ok db') : Keeps db db' := by
  have hdb' := insertOrganization_eq_ok h
  apply keeps_of_grows hn
  · intro k
    rw [hdb']
    cases k <;> rfl
  · intro k
    rw [hdb']
    cases k <;> rfl
  · exact fun org user => administers_insertOrganization h

/-! ## Credentials -/

/-- Every credential that works has a creator who administers its organization. -/
structure Delegated (db : Db) : Prop where
  ids : ∀ k, (db.ids k).Nodup
  backed : ∀ k, ∀ c ∈ db.live k, db.administers c.organizationID c.createdBy = true

theorem Keeps.delegated (h : Keeps db db') (hd : Delegated db) : Delegated db' where
  ids := h.ids
  backed k c hc := h.backed k c hc (hd.backed k c)

theorem Effect.delegated (h : Effect b op db db') (hd : Delegated db) : Delegated db' := by
  cases h with
  | none => exact hd
  | refused => exact hd
  | request t _ _ _ h => exact (t.keeps_run hd.ids h).delegated hd
  | logged r => exact ⟨hd.ids, hd.backed⟩
  | created _ _ _ h => exact (keeps_insertOrganization hd.ids h).delegated hd

/-- A credential whose creator loses authority has exactly one new row. -/
theorem Keeps.one_row (h : Keeps db db') (hd : Delegated db) {k : CredentialKind}
    {c : Credential} (hc : c ∈ db.live k)
    (hlost : db'.administers c.organizationID c.createdBy = false) :
    ∃ rows, db'.audit = db.audit ++ rows ∧
      rows.countP (·.ends k c.id c.organizationID) = 1 := by
  rcases h.rows with hconserves | hgrow
  · obtain ⟨rows, haudit, hcount⟩ := hconserves.rows
    refine ⟨rows, haudit, ?_⟩
    have hlive : ((db.live k).map Credential.id).Nodup := (hd.ids k).sublist (Db.live_ids_sublist k)
    have hbefore : (db.live k).countP (·.isAt c.id c.organizationID) = 1 := by
      rw [List.countP_eq_length_filter]
      have : (db.live k).filter (·.isAt c.id c.organizationID) =
          (db.live k).filter fun d => d.id = c.id := by
        apply List.filter_congr
        intro d hdm
        by_cases hid : d.id = c.id
        · obtain rfl := List.inj_on_of_nodup_map hlive hdm hc hid
          simp [Credential.isAt]
        · simp [Credential.isAt, hid]
      rw [this, Table.filter_key_eq Credential.id hlive hc]
      rfl
    have hafter : (db'.live k).countP (·.isAt c.id c.organizationID) = 0 := by
      rw [List.countP_eq_zero]
      intro d hdl hat
      simp only [Credential.isAt, Bool.and_eq_true, decide_eq_true_eq] at hat
      -- what is left with the id would be the credential itself, and backed
      obtain rfl := List.inj_on_of_nodup_map hlive (hconserves.live k d hdl) hc hat.1
      have hkept := h.backed k d hdl (hd.backed k d)
      rw [hlost] at hkept
      cases hkept
    have := hcount k c.id c.organizationID
    omega
  · have := hgrow _ _ (hd.backed k c hc)
    rw [hlost] at this
    cases this

/-- The step after which a creator's authority is gone wrote one row for each of their credentials. -/
theorem Effect.one_row (h : Effect b op db db') (hd : Delegated db)
    {k : CredentialKind} {c : Credential} (hc : c ∈ db.live k)
    (hlost : db'.administers c.organizationID c.createdBy = false) :
    ∃ rows, db'.audit = db.audit ++ rows ∧
      rows.countP (·.ends k c.id c.organizationID) = 1 := by
  have hstill : db.administers c.organizationID c.createdBy = true := hd.backed k c hc
  cases h with
  | none =>
    rw [hstill] at hlost
    cases hlost
  | refused =>
    rw [hstill] at hlost
    cases hlost
  | request t _ _ _ h => exact (t.keeps_run hd.ids h).one_row hd hc hlost
  | logged r =>
    rw [(Db.sameAuthority_log r).administers, hstill] at hlost
    cases hlost
  | created _ _ _ h => exact (keeps_insertOrganization hd.ids h).one_row hd hc hlost

/-- In every run, a credential that works was created by an active administrator of its
organization, and one whose creator loses that authority is gone after the very step that took it,
with exactly one audit row of that step. -/
theorem credentials_never_outlive_authority {w₀ : World} (h₀ : Delegated w₀.db)
    (hrun : (machine b).Steps w₀ w) :
    (∀ k, ∀ c ∈ w.db.live k, w.db.administers c.organizationID c.createdBy = true) ∧
      ∀ op w', step b op w = .ok w' → ∀ k, ∀ c ∈ w.db.live k,
        w'.db.administers c.organizationID c.createdBy = false →
          c ∉ w'.db.live k ∧ ∃ rows, w'.db.audit = w.db.audit ++ rows ∧
            rows.countP (·.ends k c.id c.organizationID) = 1 := by
  have hd : Delegated w.db := by
    apply hrun.keeps _ h₀
    intro op w₁ w₂ hw hstep
    exact (effect_of_step hstep).delegated hw
  refine ⟨hd.backed, ?_⟩
  intro op w' hstep k c hc hlost
  have heffect := effect_of_step hstep
  refine ⟨?_, heffect.one_row hd hc hlost⟩
  intro hlive
  have hbacked := (heffect.delegated hd).backed k c hlive
  rw [hlost] at hbacked
  cases hbacked

/-- An account as a directory or a person left it. -/
def sampleUser (id provider : String) : User where
  id := id
  username := id
  email := ""
  displayName := ""
  passwordHash := ""
  role := "user"
  status := "active"
  ssoProvider := provider
  ssoSubject := ""
  totpSecretEnc := ""
  totpEnabled := false
  recoveryCodesHash := "[]"
  mustChangePassword := false

/-- One organization with two administrators, one of whom created an agent token. -/
def twoAdmins : World where
  db := { Db.empty with
    users := [sampleUser "usr_a" "local", sampleUser "usr_b" "local"]
    organizations := [⟨"org_1", "One"⟩]
    memberships := [⟨"org_1", "usr_a", .organizationAdmin, .active⟩,
      ⟨"org_1", "usr_b", .organizationAdmin, .active⟩]
    serviceTokens := [⟨"agt_1", "org_1", "bot", "hash", "usr_a", 0, .mcpRead, none, ""⟩] }
  unlogged := []
  creating := []
  commits := 0

/-- One administrator removes the other. -/
def removal : Op := .request (.removeMembership ⟨"usr_b", "org_1", "", "", ""⟩ "usr_a") 7

/-- The removed administrator's token is revoked with one row. -/
theorem credentials_never_outlive_authority_removed :
    ∃ w', step ⟨.postgres, id⟩ removal twoAdmins = .ok w' ∧
      (⟨"agt_1", "org_1", "usr_a"⟩ : Credential) ∉ w'.db.live .agentToken ∧
      ∃ rows, w'.db.audit = twoAdmins.db.audit ++ rows ∧
        rows.countP (·.ends .agentToken "agt_1" "org_1") = 1 := by
  have h₀ : Delegated twoAdmins.db := by
    constructor
    · intro k
      cases k <;> decide
    · intro k
      cases k <;> decide
  obtain ⟨w', hstep⟩ : ∃ w', step ⟨.postgres, id⟩ removal twoAdmins = .ok w' := by
    exact ⟨_, rfl⟩
  refine ⟨w', hstep, ?_⟩
  apply (credentials_never_outlive_authority h₀ Relation.ReflTransGen.refl).2 removal w' hstep
  · decide
  · obtain rfl := Except.ok.inj hstep.symm
    decide +kernel

/-! ## Administrators -/

/-- The account a transaction of the installer's directory is about to make available or not. -/
def Transaction.switches (db : Db) : Transaction → Option (String × Bool)
  | installerDirectory m => m.switches db
  | revokeInstallerIdentity issuer subject => revocation issuer subject db
  | _ => none

/-- Every organization the account administers has another active administrator. -/
def Db.sparesAdmins (id : String) (db : Db) : Bool :=
  (db.administered id).all fun org =>
    db.memberships.any fun m => m.organizationID = org && m.userID ≠ id && db.adminRow m

/-- The operation is not the installer's directory switching off the last administrator of an
organization. -/
def Op.spares (db : Db) : Op → Bool
  | request t _ =>
    match t.switches db with
    | some (id, false) =>
      (db.users.filter (installerRow id)).length ≠ 1 || db.sparesAdmins id
    | _ => true
  | _ => true

/-- The transactions an identity provider causes. -/
def Op.external : Op → Bool
  | request t _ => t.external
  | _ => false

/-- Every organization with an active administrator still has one, or the operation is a directory's
and recorded the loss. -/
def AdministratorKept (op : Op) (db db' : Db) : Prop :=
  ∀ org, db.hasAdmin org = true →
    db'.hasAdmin org = true ∨ op.external = true ∧ Loss org db db'

theorem sparesAdmins_iff {id : String} : db.sparesAdmins id = true ↔
    ∀ org, db.administers org id = true → ∃ other, other ≠ id ∧ db.administers org other = true := by
  simp only [Db.sparesAdmins, List.all_eq_true, mem_administered, Db.administers_iff,
    List.any_eq_true, Bool.and_eq_true, decide_eq_true_eq]
  apply forall_congr'
  intro org
  apply imp_congr_right
  intro _
  constructor
  · rintro ⟨m, hm, ⟨horg, hne⟩, hrow⟩
    exact ⟨m.userID, hne, m, hm, horg, rfl, hrow⟩
  · rintro ⟨other, hne, m, hm, horg, rfl, hrow⟩
    exact ⟨m, hm, ⟨horg, hne⟩, hrow⟩

theorem tells_revokeIn (orgs : List String) (user actor : String) (now : Int) (db : Db) :
    Db.Tells db (db.revokeIn orgs user actor now) := by
  induction orgs generalizing db with
  | nil => exact Db.Tells.refl db
  | cons org orgs ih => exact (Db.tells_revokeLost org user actor now db).trans (ih _)

/-- The installer's directory never records the loss of an administrator. -/
theorem not_loss_of_switched {now : Int} {id org : String} {db₁ db₂ : Db}
    {action details : String} (havail : installerAvailability id false now db = .ok db₁)
    (hsame : Same db₁ db₂) (haction : Text.hasPrefix action "installer." = true)
    (h : db' = db₂.log (installerAudit action id details now)) : ¬ Loss org db db' := by
  obtain ⟨-, ⟨hactive, -⟩ | ⟨-, rfl⟩⟩ := installerAvailability_eq_ok havail
  · cases hactive
  rintro ⟨rows, hrows, r, hr, hloss, -⟩
  obtain ⟨swept, hswept, htells⟩ := tells_revokeIn ((switchedOff id db).adminOrgs id) id "directory"
    now (switchedOff id db)
  have haudit : db'.audit = db.audit ++ (swept ++ [installerAudit action id details now]) := by
    rw [h, Db.log, hsame.audit, hswept, (touches_switchedOff id db).audit, List.append_assoc]
  rw [List.append_cancel_left (hrows.symm.trans haudit)] at hr
  rcases Table.mem_concat.1 hr with hr | hr
  · obtain ⟨k, hk⟩ := htells r hr
    rw [hloss] at hk
    revert hk
    cases k <;> decide
  · rw [hr] at hloss
    obtain rfl : action = "organization.last_admin_lost" := hloss
    revert haction
    decide

theorem Switched.kept_iff {now : Int} {s : Option (String × Bool)}
    (h : Switched now db db' s) (hids : (db.users.map User.id).Nodup) {op : Op} :
    AdministratorKept op db db' ↔ ∀ id, s = some (id, false) → db.sparesAdmins id = true := by
  cases h with
  | nothing h =>
    subst h
    exact ⟨nofun, fun _ org hadmin => .inl hadmin⟩
  | account id _ db₁ _ _ _ havail hsame haction h =>
    have hdb' : ∀ org, db'.hasAdmin org = db₁.hasAdmin org := by
      intro org
      rw [h, (Db.sameAuthority_log _).hasAdmin, hsame.hasAdmin]
    obtain ⟨hone, ⟨rfl, rfl⟩ | ⟨rfl, hdb₁⟩⟩ := installerAvailability_eq_ok havail
    · -- an account made available takes nobody's authority
      refine ⟨nofun, fun _ org hadmin => .inl ?_⟩
      obtain ⟨user, huser⟩ := Db.hasAdmin_iff.1 hadmin
      rw [hdb', Db.hasAdmin_iff]
      refine ⟨user, administers_of_active ?_ ?_ huser⟩
      · rfl
      · exact fun _ => active_installerUpdate
    · have hafter : ∀ org, db'.hasAdmin org = true ↔
          ∃ other, other ≠ id ∧ db.administers org other = true := by
        intro org
        rw [hdb', hdb₁, (swept_revokeIn _ _ _ _ _).hasAdmin, hasAdmin_switchedOff hids hone]
      constructor
      · intro hkept id' heq
        obtain ⟨rfl, -⟩ := Prod.mk.inj (Option.some.inj heq)
        rw [sparesAdmins_iff]
        intro org hadmin
        rcases hkept org (Db.hasAdmin_iff.2 ⟨id, hadmin⟩) with hadmin' | ⟨-, hloss⟩
        · exact (hafter org).1 hadmin'
        · exact absurd hloss (not_loss_of_switched havail hsame haction h)
      · intro hspares org hadmin
        left
        rw [hafter]
        obtain ⟨user, huser⟩ := Db.hasAdmin_iff.1 hadmin
        by_cases hu : user = id
        · exact sparesAdmins_iff.1 (hspares id rfl) org (hu ▸ huser)
        · exact ⟨user, hu, huser⟩

/-- What the directory is about to do with an account it owns always succeeds. -/
theorem run_of_switches (b : Backend) (now : Int) {t : Transaction} {id : String}
    {active : Bool} (hs : t.switches db = some (id, active))
    (hone : (db.users.filter (installerRow id)).length = 1) : ∃ db', t.run b now db = .ok db' := by
  have havail : ∃ db₁, installerAvailability id active now db = .ok db₁ := by
    unfold installerAvailability
    rw [if_neg (not_not.2 hone)]
    cases active
    · exact ⟨_, rfl⟩
    · exact ⟨_, rfl⟩
  obtain ⟨db₁, havail⟩ := havail
  cases t with
  | installerDirectory m =>
    simp only [Transaction.switches, InstallerMessage.switches] at hs
    split at hs
    · next n active' hasks =>
      obtain ⟨rfl, rfl⟩ := Prod.mk.inj (Option.some.inj hs)
      have hok : ∃ db', applyInstallerDirectory m now db = .ok db' := by
        simp only [applyInstallerDirectory, hasks, havail]
        exact ⟨_, rfl⟩
      obtain ⟨db', hok⟩ := hok
      exact ⟨db', mapError_eq_ok.2 hok⟩
    · cases hs
  | revokeInstallerIdentity issuer subject =>
    simp only [Transaction.switches, revocation] at hs
    split at hs
    · next havailable =>
      obtain ⟨rfl, rfl⟩ := Prod.mk.inj (Option.some.inj hs)
      have hok : ∃ db', revokeInstallerIdentity issuer subject now db = .ok db' := by
        simp only [revokeInstallerIdentity, havailable, havail]
        exact ⟨_, rfl⟩
      obtain ⟨db', hok⟩ := hok
      exact ⟨db', mapError_eq_ok.2 hok⟩
    · cases hs
  | _ => cases hs

theorem spares_iff {t : Transaction} {now : Int} :
    (Op.request t now).spares db = true ↔ ∀ id, t.switches db = some (id, false) →
      (db.users.filter (installerRow id)).length = 1 → db.sparesAdmins id = true := by
  simp only [Op.spares]
  split
  · next id hs =>
    rw [hs]
    simp only [Bool.or_eq_true, decide_eq_true_eq, Option.some.injEq, Prod.mk.injEq, and_true]
    constructor
    · rintro (hne | hspares) id' rfl hone
      · exact absurd hone hne
      · exact hspares
    · intro h
      by_cases hone : (db.users.filter (installerRow id)).length = 1
      · exact .inr (h id rfl hone)
      · exact .inl hone
  · next hs => exact ⟨fun _ id heq => absurd heq (hs id), fun _ => rfl⟩

/-- Nobody's authority changed, or an organization was checked: nothing is lost. -/
theorem kept_of_hasAdmin (h : ∀ org, db.hasAdmin org = true → db'.hasAdmin org = true) :
    AdministratorKept op db db' := fun org hadmin => .inl (h org hadmin)

theorem kept_of_same (h : SameAuthority db db') : AdministratorKept op db db' :=
  kept_of_hasAdmin fun org hadmin => (h.hasAdmin org).trans hadmin

theorem Transaction.kept_iff {t : Transaction} {now : Int}
    (hids : (db.users.map User.id).Nodup) (hn : ∀ k, (db.ids k).Nodup)
    (h : t.run b now db = .ok db') :
    AdministratorKept (.request t now) db db' ↔ (Op.request t now).spares db = true := by
  have hinstaller : ∀ s, t.switches db = s → Switched now db db' s →
      (AdministratorKept (.request t now) db db' ↔ (Op.request t now).spares db = true) := by
    intro s hs hswitched
    rw [hswitched.kept_iff hids, spares_iff, hs]
    apply forall_congr'
    intro id
    constructor
    · exact fun hkept heq _ => hkept heq
    · intro hspares heq
      subst heq
      cases hswitched with
      | account _ _ _ _ _ _ havail => exact hspares rfl (installerAvailability_eq_ok havail).1
  cases t with
  | createAgentToken =>
    exact iff_of_true (kept_of_same (issues_createAgentToken hn h).toSameAuthority) rfl
  | setAgentTokenScope =>
    exact iff_of_true (kept_of_same (issues_setAgentTokenScope hn h).toSameAuthority) rfl
  | createStatusFeed =>
    exact iff_of_true (kept_of_same (issues_createStatusFeed hn h).toSameAuthority) rfl
  | createServicePairing =>
    exact iff_of_true (kept_of_same (issues_createServicePairing hn h).toSameAuthority) rfl
  | claimServiceToken =>
    exact iff_of_true
      (kept_of_same (issues_claimServiceToken hn (mapError_eq_ok.1 h)).toSameAuthority) rfl
  | putMembership =>
    exact iff_of_true (kept_of_hasAdmin fun org => (membershipChange_put h).hasAdmin) rfl
  | removeMembership =>
    exact iff_of_true (kept_of_hasAdmin fun org => (membershipChange_remove h).hasAdmin) rfl
  | deleteUser =>
    refine iff_of_true ?_ rfl
    apply kept_of_hasAdmin
    intro org hadmin
    -- a local change that would lose the last administrator is refused
    rcases hasAdmin_adminQuorum (fun db₁ => touches_deleteRow) (mapError_eq_ok.1 h) hadmin with
      hadmin | ⟨hexternal, -⟩
    · exact hadmin
    · cases hexternal
  | directory =>
    refine iff_of_true ?_ rfl
    intro org hadmin
    rcases hasAdmin_applyDirectoryEvent (mapError_eq_ok.1 h) hadmin with hadmin | hloss
    · exact .inl hadmin
    · exact .inr ⟨rfl, hloss⟩
  | installerDirectory =>
    exact hinstaller _ rfl (switched_applyInstallerDirectory (mapError_eq_ok.1 h))
  | revokeInstallerIdentity =>
    exact hinstaller _ rfl (switched_revokeInstallerIdentity (mapError_eq_ok.1 h))

theorem Effect.kept_iff (h : Effect b op db db')
    (hids : (db.users.map User.id).Nodup) (hn : ∀ k, (db.ids k).Nodup) :
    AdministratorKept op db db' ↔ op.spares db = true := by
  cases h with
  | none op _ hop =>
    refine iff_of_true (kept_of_same (SameAuthority.refl _)) ?_
    cases op with
    | request t now => exact absurd rfl (hop t now)
    | _ => rfl
  | refused _ now _ _ h =>
    refine iff_of_true (kept_of_same (SameAuthority.refl _)) ?_
    rw [spares_iff]
    intro id hs hone
    obtain ⟨db', hok⟩ := run_of_switches b now hs hone
    rw [h] at hok
    cases hok
  | request t _ _ _ h => exact t.kept_iff hids hn h
  | logged r => exact iff_of_true (kept_of_same (Db.sameAuthority_log r)) rfl
  | created _ _ _ h =>
    refine iff_of_true ?_ rfl
    apply kept_of_hasAdmin
    intro org hadmin
    obtain ⟨user, huser⟩ := Db.hasAdmin_iff.1 hadmin
    exact Db.hasAdmin_iff.2 ⟨user, administers_insertOrganization h huser⟩

/-- The primary keys that the transactions rely on. -/
structure Keyed (db : Db) : Prop where
  accounts : (db.users.map User.id).Nodup
  ids : ∀ k, (db.ids k).Nodup

theorem Effect.keyed (h : Effect b op db db') (hk : Keyed db) : Keyed db' := by
  cases h with
  | none => exact hk
  | refused => exact hk
  | request t _ _ _ h =>
    exact ⟨(t.confined_run hk.ids h).accounts hk.accounts, (t.keeps_run hk.ids h).ids⟩
  | logged r => exact ⟨hk.accounts, fun k => (Db.ids_log r k).symm ▸ hk.ids k⟩
  | created _ _ _ h =>
    refine ⟨?_, (keeps_insertOrganization hk.ids h).ids⟩
    rw [insertOrganization_eq_ok h]
    exact hk.accounts

/-- In every run, a step keeps every organization's administrator, or is a directory's that records
the loss, exactly if it is not the installer's directory switching the last one off. -/
theorem administrator_kept_iff {w₀ : World} (h₀ : Keyed w₀.db) (hrun : (machine b).Steps w₀ w)
    (hstep : step b op w = .ok w') : AdministratorKept op w.db w'.db ↔ op.spares w.db = true := by
  have hk : Keyed w.db := by
    apply hrun.keeps _ h₀
    intro op w₁ w₂ hw hstep
    exact (effect_of_step hstep).keyed hw
  exact (effect_of_step hstep).kept_iff hk.accounts hk.ids

/-- An administrator leaves an organization that keeps another one. -/
theorem administrator_kept_iff_removed :
    ∃ w', step ⟨.postgres, id⟩ removal twoAdmins = .ok w' ∧
      AdministratorKept removal twoAdmins.db w'.db := by
  have h₀ : Keyed twoAdmins.db := by
    constructor
    · decide
    · intro k
      cases k <;> decide
  obtain ⟨w', hstep⟩ : ∃ w', step ⟨.postgres, id⟩ removal twoAdmins = .ok w' := by
    exact ⟨_, rfl⟩
  refine ⟨w', hstep, ?_⟩
  exact (administrator_kept_iff h₀ Relation.ReflTransGen.refl hstep).2 rfl

/-- One organization whose only administrator is an account the installer created. -/
def installedAdmin : World where
  db := { Db.empty with
    users := [sampleUser (installerUserID "idp" "s1") "kyidentity"]
    organizations := [⟨"org_1", "One"⟩]
    memberships := [⟨"org_1", installerUserID "idp" "s1", .organizationAdmin, .active⟩]
    bundle := some ⟨"setup", "idp", [⟨"idp", "s1"⟩], []⟩
    installerUsers := [⟨installerUserID "idp" "s1", "setup", "idp", "s1", "admin"⟩] }
  unlogged := []
  creating := []
  commits := 0

/-- The provider withdraws the account's role: the organization has no administrator left, and no
row says so. -/
theorem administrator_lost_without_record :
    ∃ w', step ⟨.postgres, id⟩ (.request (.revokeInstallerIdentity "idp" "s1") 7) installedAdmin =
        .ok w' ∧
      installedAdmin.db.hasAdmin "org_1" = true ∧ w'.db.hasAdmin "org_1" = false ∧
      ∀ r ∈ w'.db.audit, r.action ≠ "organization.last_admin_lost" := by
  refine ⟨(step ⟨.postgres, id⟩ (.request (.revokeInstallerIdentity "idp" "s1") 7)
    installedAdmin).toOption.getD installedAdmin, ?_⟩
  decide +kernel

/-! ## Organizations start with an administrator -/

/-- A creation in flight has an active account to make administrator: on PostgreSQL nobody changes
the locked row, on SQLite the commit is refused once anything was written. -/
structure InFlight (b : Backend) (w : World) : Prop extends Keyed w.db where
  seen : ∀ c ∈ w.creating, c.snapshot ≤ w.commits
  active : ∀ c ∈ w.creating, (b.driver = .sqlite → c.snapshot = w.commits) →
    w.db.active c.admin = true

theorem active_of_readAdmin {admin : String} (h : readAdmin admin db = .ok ()) :
    db.active admin = true := by
  unfold readAdmin at h
  split at h
  · cases h
  next u hu =>
  rw [guard_error_eq_ok, not_not] at h
  simp only [Db.active, List.any_eq_true, Bool.and_eq_true, decide_eq_true_eq]
  exact ⟨u, Table.mem_of_find User.id hu, Table.key_of_find User.id hu, h.1⟩

/-- A commit of something that leaves the locked accounts active. -/
theorem InFlight.commit (h : InFlight b w) (hk : Keyed db)
    (hactive : b.driver = .postgres → ∀ c ∈ w.creating, w.db.active c.admin = true →
      db.active c.admin = true) : InFlight b (w.commit db) where
  toKeyed := hk
  seen c hc := Nat.le_succ_of_le (h.seen c hc)
  active c hc hsnapshot := by
    cases hdriver : b.driver with
    | sqlite =>
      -- the creation read a state from before this commit
      have hseen := h.seen c hc
      have hnow : c.snapshot = w.commits + 1 := hsnapshot hdriver
      omega
    | postgres =>
      apply hactive hdriver c hc
      apply h.active c hc
      intro hsqlite
      rw [hdriver] at hsqlite
      cases hsqlite

theorem InFlight.close (h : InFlight b w) (c : Creation) : InFlight b (w.close c) where
  toKeyed := h.toKeyed
  seen c' hc' := h.seen c' (List.mem_of_mem_erase hc')
  active c' hc' := h.active c' (List.mem_of_mem_erase hc')

theorem inFlight_step (h : InFlight b w) (hstep : step b op w = .ok w') : InFlight b w' := by
  have heffect := effect_of_step hstep
  have hk : Keyed w'.db := heffect.keyed h.toKeyed
  cases op with
  | request t =>
    simp only [step, guard_error_eq_ok] at hstep
    obtain ⟨hheld, hstep⟩ := hstep
    split at hstep
    · next db hrun =>
      obtain rfl := Except.ok.inj hstep
      apply h.commit hk
      intro hpostgres c hc
      apply (t.confined_run h.ids hrun).active
      intro hlock
      apply hheld
      simp only [World.held, hpostgres, decide_true, Bool.true_and, List.any_eq_true,
        decide_eq_true_eq]
      exact ⟨c, hc, hlock⟩
    · obtain rfl := Except.ok.inj hstep
      exact ⟨hk, h.seen, h.active⟩
  | logAudit =>
    obtain ⟨-, rfl⟩ := ok_of_guard hstep
    have hcommit := h.commit hk fun _ _ _ => id
    exact ⟨hk, hcommit.seen, hcommit.active⟩
  | openOrganization =>
    simp only [step, guard_error_eq_ok] at hstep
    obtain ⟨-, hstep⟩ := hstep
    split at hstep
    · next hread =>
      obtain rfl := Except.ok.inj hstep
      refine ⟨hk, ?_, ?_⟩
      · intro c hc
        rcases Table.mem_concat.1 hc with hc | hc
        · exact h.seen c hc
        · rw [hc]
      · intro c hc hsnapshot
        rcases Table.mem_concat.1 hc with hc | hc
        · exact h.active c hc hsnapshot
        · rw [hc]
          exact active_of_readAdmin hread
    · obtain rfl := Except.ok.inj hstep
      exact h
  | commitOrganization c =>
    simp only [step, guard_error_eq_ok] at hstep
    obtain ⟨-, hstep⟩ := hstep
    split at hstep
    · obtain rfl := Except.ok.inj hstep
      exact h.close c
    split at hstep
    · next db hinsert =>
      obtain rfl := Except.ok.inj hstep
      apply (h.close c).commit hk
      intro _ c' _ hactive
      rw [insertOrganization_eq_ok hinsert]
      exact hactive
    · obtain rfl := Except.ok.inj hstep
      exact h.close c
  | rollBack c =>
    obtain ⟨-, rfl⟩ := ok_of_guard hstep
    exact h.close c

/-- In every run, an organization that a commit adds has an active administrator. -/
theorem hasAdmin_of_created {w₀ : World} (h₀ : InFlight b w₀) (hrun : (machine b).Steps w₀ w)
    {c : Creation} (hstep : step b (.commitOrganization c) w = .ok w')
    (ho : o ∈ w'.db.organizations) (hnew : o ∉ w.db.organizations) :
    w'.db.hasAdmin o.id = true := by
  have h : InFlight b w := by
    apply hrun.keeps _ h₀
    exact fun op w₁ w₂ hw hstep => inFlight_step hw hstep
  simp only [step, guard_error_eq_ok, not_not] at hstep
  obtain ⟨hc, hstep⟩ := hstep
  split at hstep
  · obtain rfl := Except.ok.inj hstep
    exact absurd ho hnew
  next hfresh =>
  split at hstep
  · next db hinsert =>
    obtain rfl := Except.ok.inj hstep
    have hdb := insertOrganization_eq_ok hinsert
    have hactive : w.db.active c.admin = true := by
      apply h.active c hc
      intro hsqlite
      by_contra hne
      exact hfresh ⟨hsqlite, hne⟩
    -- what is new is the creation's organization, with its administrator's membership
    obtain rfl : o = c.organization := by
      have ho' : o ∈ db.organizations := ho
      rw [hdb] at ho'
      rcases Table.mem_concat.1 ho' with ho' | ho'
      · exact absurd ho' hnew
      · exact ho'
    rw [hdb, Db.hasAdmin_iff]
    refine ⟨c.admin, Db.administers_iff.2 ⟨_, List.mem_append_right _ (List.mem_singleton_self _),
      rfl, rfl, ?_⟩⟩
    exact hactive
  · obtain rfl := Except.ok.inj hstep
    exact absurd ho hnew

/-- On PostgreSQL the account that a second organization was opened for loses its membership in the
first one before the commit. The account itself cannot be deleted, and administers the second. -/
theorem second_hasAdmin :
    let b : Backend := ⟨.postgres, id⟩
    let c : Creation := ⟨⟨"org_2", "Two"⟩, "usr_a", 0⟩
    let w := (machine b).run [.openOrganization c.organization c.admin, removal] twoAdmins
    w.commits = 1 ∧ step b (.request (.deleteUser "usr_a") 8) w = .error .waits ∧
      ∃ w', step b (.commitOrganization c) w = .ok w' ∧ w'.db.hasAdmin "org_2" = true := by
  intro b c w
  have h₀ : InFlight b twoAdmins :=
    ⟨⟨by decide, fun k => by cases k <;> decide⟩, by decide, by decide⟩
  have hrun : (machine b).Steps twoAdmins w := Machine.steps_run _ _
  have hstep : (machine b).step (.commitOrganization c) w =
      .ok ((machine b).run [.commitOrganization c] w) := Machine.step_eq_run (by decide +kernel)
  have hnew : c.organization ∈ ((machine b).run [.commitOrganization c] w).db.organizations ∧
      c.organization ∉ w.db.organizations := by decide +kernel
  have hwaits : w.commits = 1 ∧ step b (.request (.deleteUser "usr_a") 8) w = .error .waits := by
    decide +kernel
  clear_value w
  exact ⟨hwaits.1, hwaits.2, _, hstep, hasAdmin_of_created h₀ hrun hstep hnew.1 hnew.2⟩

end KyYard.Accounts

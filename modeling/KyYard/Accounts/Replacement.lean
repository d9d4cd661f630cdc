import KyYard.Accounts.Passwords

/-!
# No grant outlives the password it rests on

The proof about `Passwords`. `Change` says once what a step can do to accounts and grants: which
account rows it leaves, sets or replaces, and that a session, a challenge or a pairing is either kept,
outside a replaced account, or is the one the step drew. The invariant is then one argument over
`Change`, whatever the step was.
-/

namespace KyYard.Accounts.Passwords

open Foundation

/-! ## Transactions that grant nothing -/

/-- No password changes and nothing is granted: an account is one there was or a provider's new one,
and a session that is left belongs to an account that is still active if it was. -/
structure Spares (db db' : Db) : Prop where
  ids : (db.users.map User.id).Nodup → (db'.users.map User.id).Nodup
  users : ∀ u' ∈ db'.users, (u'.passwordHash = "" ∧ u'.ssoProvider ≠ "local") ∨
    ∃ u ∈ db.users, u.id = u'.id ∧ u.passwordHash = u'.passwordHash ∧
      u.ssoProvider = u'.ssoProvider
  sessions : ∀ s ∈ db'.sessions, s ∈ db.sessions
  challenges : ∀ c ∈ db'.challenges, c ∈ db.challenges
  pairings : ∀ p ∈ db'.pairings, p ∈ db.pairings
  active : ∀ s ∈ db'.sessions, db.active s.userID = true → db'.active s.userID = true

section Spares

variable {b : Backend} {now : Int} {db db₁ db' : Db}

theorem Spares.trans (h : Spares db db₁) (h' : Spares db₁ db') : Spares db db' where
  ids hn := h'.ids (h.ids hn)
  users u' hu' := by
    rcases h'.users u' hu' with hnew | ⟨u₁, hu₁, hid₁, hhash₁, hprovider₁⟩
    · exact .inl hnew
    · rcases h.users u₁ hu₁ with ⟨hhash, hprovider⟩ | ⟨u, hu, hid, hhash, hprovider⟩
      · exact .inl ⟨hhash₁ ▸ hhash, hprovider₁ ▸ hprovider⟩
      · exact .inr ⟨u, hu, hid.trans hid₁, hhash.trans hhash₁, hprovider.trans hprovider₁⟩
  sessions s hs := h.sessions s (h'.sessions s hs)
  challenges c hc := h.challenges c (h'.challenges c hc)
  pairings p hp := h.pairings p (h'.pairings p hp)
  active s hs hactive := h'.active s hs (h.active s (h'.sessions s hs) hactive)

/-- The accounts are the same, and grants only go. -/
theorem spares_of_users (hu : db'.users = db.users) (hs : ∀ s ∈ db'.sessions, s ∈ db.sessions)
    (hc : ∀ c ∈ db'.challenges, c ∈ db.challenges) (hp : ∀ p ∈ db'.pairings, p ∈ db.pairings) :
    Spares db db' where
  ids hn := hu ▸ hn
  users u' hu' := .inr ⟨u', hu ▸ hu', rfl, rfl, rfl⟩
  sessions := hs
  challenges := hc
  pairings := hp
  active s _ hactive := by
    unfold Db.active at hactive ⊢
    rwa [hu]

theorem spares_of_eq (hu : db'.users = db.users) (hs : db'.sessions = db.sessions)
    (hc : db'.challenges = db.challenges) (hp : db'.pairings = db.pairings) : Spares db db' := by
  apply spares_of_users hu
  · exact fun _ h => hs ▸ h
  · exact fun _ h => hc ▸ h
  · exact fun _ h => hp ▸ h

theorem Spares.refl (db : Db) : Spares db db :=
  spares_of_eq rfl rfl rfl rfl

theorem spares_log (r : AuditRecord) (db : Db) : Spares db (db.log r) :=
  spares_of_eq rfl rfl rfl rfl

theorem spares_of_swept (h : Db.Swept db db') : Spares db db' := by
  have hs := congrArg Db.sessions h.frame
  have hc := congrArg Db.challenges h.frame
  have hp := congrArg Db.pairings h.frame
  exact spares_of_eq h.users hs hc hp

/-- Account rows change, but neither ids, providers nor hashes do, and an account that keeps a
session stays active. -/
theorem spares_updateUsers {p : User → Bool} {f : User → User}
    (hf : ∀ u, (f u).id = u.id ∧ (f u).passwordHash = u.passwordHash ∧
      (f u).ssoProvider = u.ssoProvider) (hu : db'.users = Table.updateWhere p f db.users)
    (hs : ∀ s ∈ db'.sessions, s ∈ db.sessions) (hc : ∀ c ∈ db'.challenges, c ∈ db.challenges)
    (hp : ∀ x ∈ db'.pairings, x ∈ db.pairings)
    (hstatus : ∀ s ∈ db'.sessions, ∀ u ∈ db.users, u.id = s.userID → u.status = "active" →
      p u = true → (f u).status = "active") : Spares db db' where
  ids hn := by
    rw [hu]
    exact Table.nodup_updateWhere hn fun u => (hf u).1
  users u' hu' := by
    rw [hu] at hu'
    obtain ⟨u, hmem, rfl⟩ := Table.mem_updateWhere.1 hu'
    refine .inr ⟨u, hmem, ?_⟩
    split
    · exact ⟨(hf u).1.symm, (hf u).2.1.symm, (hf u).2.2.symm⟩
    · exact ⟨rfl, rfl, rfl⟩
  sessions := hs
  challenges := hc
  pairings := hp
  active s hsession hactive := by
    simp only [Db.active, List.any_eq_true, Bool.and_eq_true, decide_eq_true_eq] at hactive ⊢
    obtain ⟨u, hmem, hid, hactive⟩ := hactive
    refine ⟨if p u then f u else u, ?_, ?_⟩
    · rw [hu]
      exact Table.mem_updateWhere.2 ⟨u, hmem, rfl⟩
    · split
      · next hpu => exact ⟨(hf u).1.trans hid, hstatus s hsession u hmem hid hactive hpu⟩
      · exact ⟨hid, hactive⟩

/-- An account without a password is a provider's. -/
theorem spares_createUser {user : User} (hhash : user.passwordHash = "")
    (hprovider : user.ssoProvider ≠ "local") (h : db.createUser b user = .ok db') :
    Spares db db' := by
  obtain ⟨hfresh, codes, is, rfl⟩ := createUser_frame h
  refine ⟨fun hn => Table.nodup_concat hn hfresh, ?_, fun _ h => h, fun _ h => h, fun _ h => h, ?_⟩
  · intro u' hu'
    rcases Table.mem_concat.1 hu' with hold | hnew
    · exact .inr ⟨u', hold, rfl, rfl, rfl⟩
    · rw [hnew]
      exact .inl ⟨hhash, hprovider⟩
  · exact fun _ _ hactive => active_concat hactive

theorem spares_deleteSession (tokenHash : String) (db : Db) :
    Spares db (deleteSession tokenHash db) :=
  spares_of_users rfl (fun _ hs => List.mem_of_mem_filter hs) (fun _ h => h) fun _ h => h

/-! ## Directories grant nothing -/

theorem spares_adminQuorum {user : String} {external : Bool} {write : Db → Except Err (Option Db)}
    (hwrite : ∀ db₁, write db = .ok (some db₁) → Spares db db₁)
    (h : adminQuorum b user external now write db = .ok db') : Spares db db' := by
  obtain ⟨db₁, hdb₁, hquorum⟩ := adminQuorum_eq_ok h
  exact (hwrite db₁ hdb₁).trans (spares_of_swept (swept_quorum hquorum))

theorem spares_deleteRow {id : String} (h : deleteRow id db = .ok (some db₁)) : Spares db db₁ := by
  obtain rfl := deleteRow_eq_ok h
  refine ⟨fun hn => hn.sublist (List.filter_sublist.map _), ?_, fun _ => List.mem_of_mem_filter,
    fun _ => List.mem_of_mem_filter, fun _ hp => hp, ?_⟩
  · exact fun u' hu' => .inr ⟨u', List.mem_of_mem_filter hu', rfl, rfl, rfl⟩
  · intro s hs hactive
    have hne := (List.mem_filter.1 hs).2
    simp only [Db.active, Db.deleteUser, List.any_eq_true, List.mem_filter, Bool.and_eq_true,
      decide_eq_true_eq] at hactive hne ⊢
    obtain ⟨u, hmem, hid, hstatus⟩ := hactive
    exact ⟨u, ⟨hmem, hid.symm ▸ hne⟩, hid, hstatus⟩

section

variable (hn : (db.users.map User.id).Nodup)
include hn

/-- An account the directory rewrites: its sessions end, or it has the status it had. -/
theorem spares_updated {u new : User} (hu : u ∈ db.users)
    (hid : new.id = u.id) (h : updateUserIdentity b new now db = .ok db₁)
    (hafter : db' = db₁.deleteSessions u.id ∨ db' = db₁ ∧ new.status = u.status) :
    Spares db db' := by
  obtain ⟨db₂, hrow, hquorum⟩ := adminQuorum_eq_ok h
  obtain ⟨f, hf, rfl⟩ := identityRow_frame hrow
  have hkeeps : ∀ u, (f u).id = u.id ∧ (f u).passwordHash = u.passwordHash ∧
      (f u).ssoProvider = u.ssoProvider := fun u => ⟨(hf u).1, (hf u).2.1, (hf u).2.2.1⟩
  have hswept := swept_quorum hquorum
  have hs := congrArg Db.sessions hswept.frame
  have hc := congrArg Db.challenges hswept.frame
  have hp := congrArg Db.pairings hswept.frame
  rcases hafter with rfl | ⟨rfl, hstatus⟩
  · refine spares_updateUsers hkeeps hswept.users ?_ (fun c hmem => hc ▸ hmem)
      (fun p hmem => hp ▸ hmem) ?_
    · intro s hmem
      exact hs ▸ List.mem_of_mem_filter hmem
    · intro s hmem v _ hv _ hnew
      have hne := (List.mem_filter.1 hmem).2
      simp only [decide_eq_true_eq] at hne hnew
      exact absurd (hv.symm.trans (hnew.trans hid)) hne
  · refine spares_updateUsers hkeeps hswept.users (fun s hmem => hs ▸ hmem)
      (fun c hmem => hc ▸ hmem) (fun p hmem => hp ▸ hmem) ?_
    · intro s _ v hv _ hactive hnew
      -- the rewritten row is the one the event read
      obtain rfl := List.inj_on_of_nodup_map hn hv hu ((of_decide_eq_true hnew).trans hid)
      exact (hf _).2.2.2.trans (hstatus.trans hactive)

theorem Applied.spares {payload : SyncPayload}
    (h : Applied b payload now db db') : Spares db db' := by
  cases h with
  | nothing h =>
    rw [h]
    exact Spares.refl db
  | created _ hnew h =>
    refine spares_createUser hnew.1 ?_ h
    rw [hnew.2]
    decide
  | updated _ _ _ haccount hid h hafter =>
    unfold Db.userBySSO at haccount
    split at haccount
    · cases haccount
    exact spares_updated hn (Table.mem_of_find _ haccount) hid h hafter
  | deleted _ _ h => exact spares_adminQuorum (fun db₁ => spares_deleteRow) h

theorem spares_applyDirectoryEvent {payload : SyncPayload} {suffix : String}
    (h : applyDirectoryEvent b payload suffix now db = .ok db') : Spares db db' := by
  obtain ⟨db₁, hclaim, happly⟩ := applyDirectoryEvent_eq_ok h
  have hspares : Spares db db₁ := by
    simp only [claimEvent, guard_error_eq_ok] at hclaim
    obtain ⟨-, -, hclaim⟩ := hclaim
    obtain rfl := Except.ok.inj hclaim
    exact spares_of_eq rfl rfl rfl rfl
  exact hspares.trans (Applied.spares (hspares.ids hn) (applied_apply happly))

end

theorem spares_installerAvailability {id : String} {active : Bool}
    (h : installerAvailability id active now db = .ok db') : Spares db db' := by
  obtain ⟨-, ⟨-, rfl⟩ | ⟨-, rfl⟩⟩ := installerAvailability_eq_ok h
  · refine spares_updateUsers ?_ rfl (fun _ h => h) (fun _ h => h) (fun _ h => h) ?_
    · exact fun _ => ⟨rfl, rfl, rfl⟩
    · exact fun _ _ _ _ _ _ _ => rfl
  · refine Spares.trans ?_ (spares_of_swept (swept_revokeIn _ _ _ _ _))
    refine spares_updateUsers ?_ rfl (fun _ hs => List.mem_of_mem_filter hs)
      (fun _ hc => List.mem_of_mem_filter hc) (fun _ hp => List.mem_of_mem_filter hp) ?_
    · exact fun _ => ⟨rfl, rfl, rfl⟩
    · intro s hs u _ hid _ hrow
      have hne := (List.mem_filter.1 hs).2
      simp only [installerRow, Bool.and_eq_true, decide_eq_true_eq] at hrow hne
      exact absurd (hid.symm.trans hrow.1.1) hne

theorem spares_applyInstallerDirectory {m : InstallerMessage}
    (h : applyInstallerDirectory m now db = .ok db') : Spares db db' := by
  unfold applyInstallerDirectory at h
  split at h
  · cases h
  · obtain rfl := Except.ok.inj h
    exact Spares.refl db
  · obtain ⟨db₁, havail, rfl⟩ := map_eq_ok.1 h
    refine (spares_installerAvailability havail).trans ?_
    exact spares_of_eq rfl rfl rfl rfl

theorem spares_revokeInstallerIdentity {issuer subject : String}
    (h : Accounts.revokeInstallerIdentity issuer subject now db = .ok db') : Spares db db' := by
  unfold Accounts.revokeInstallerIdentity at h
  split at h
  · cases h
  · obtain rfl := Except.ok.inj h
    exact Spares.refl db
  · obtain ⟨db₁, havail, rfl⟩ := map_eq_ok.1 h
    exact (spares_installerAvailability havail).trans (spares_log _ db₁)

end Spares

/-! ## What a step changes -/

/-- What a step does to accounts and grants. -/
structure Change (op : Op) (db db' : Db) : Prop where
  ids : (db'.users.map User.id).Nodup
  /-- An account without a password is a provider's, a new hash is the step's, and any other row keeps
  its hash, which the step does not replace. -/
  users : ∀ u' ∈ db'.users, (u'.passwordHash = "" ∧ u'.ssoProvider ≠ "local") ∨
    op.sets = some u'.passwordHash ∨
      ∃ u ∈ db.users, u.id = u'.id ∧ u.passwordHash = u'.passwordHash ∧
        u.ssoProvider = u'.ssoProvider ∧ ∀ r ∈ op.replaces db, u.id ≠ r.1
  replaced : ∀ r ∈ op.replaces db, ∃ u ∈ db.users, u.id = r.1 ∧ u.passwordHash = r.2 ∧
    u.ssoProvider = "local"
  sessions : ∃ new : Option Session, (∀ s ∈ new, op.draws = some s.tokenHash) ∧
    ∀ s ∈ db'.sessions, s ∈ new ∨ s ∈ db.sessions ∧ ∀ r ∈ op.replaces db, s.userID ≠ r.1
  challenges : ∀ c ∈ db'.challenges, op.draws = some c.tokenHash ∨
    c ∈ db.challenges ∧ ∀ r ∈ op.replaces db, c.userID ≠ r.1
  pairings : ∀ p ∈ db'.pairings, op.draws = some p.secretHash ∨
    p ∈ db.pairings ∧ ∀ r ∈ op.replaces db, p.userID ≠ r.1
  active : ∀ s ∈ db'.sessions, (s ∈ db.sessions → db.active s.userID = true) →
    db'.active s.userID = true

section Change

variable {b : Backend} {now : Int} {op : Op} {db db' : Db}

theorem Spares.change (h : Spares db db') (hn : (db.users.map User.id).Nodup)
    (hr : op.replaces db = none) : Change op db db' where
  ids := h.ids hn
  users u' hu' := by
    rcases h.users u' hu' with hnew | ⟨u, hu, hid, hhash, hprovider⟩
    · exact .inl hnew
    · exact .inr (.inr ⟨u, hu, hid, hhash, hprovider, by simp [hr]⟩)
  replaced := by simp [hr]
  sessions := ⟨none, nofun, fun s hs => .inr ⟨h.sessions s hs, by simp [hr]⟩⟩
  challenges c hc := .inr ⟨h.challenges c hc, by simp [hr]⟩
  pairings p hp := .inr ⟨h.pairings p hp, by simp [hr]⟩
  active s hs hactive := h.active s hs (hactive (h.sessions s hs))

theorem active_of_row {id : String} (h : ∃ u ∈ db.users, u.id = id ∧ u.status = "active") :
    db.active id = true := by
  simpa [Db.active] using h

section

variable (hn : (db.users.map User.id).Nodup)
include hn

/-- A step that replaces no password adds no grant but the one it draws. -/
theorem change_granted (new : Option Session) (hr : op.replaces db = none)
    (husers : db'.users = db.users)
    (hnew : ∀ s ∈ new, op.draws = some s.tokenHash ∧ db.active s.userID = true)
    (hs : ∀ s ∈ db'.sessions, s ∈ db.sessions ∨ s ∈ new)
    (hc : ∀ c ∈ db'.challenges, c ∈ db.challenges ∨ op.draws = some c.tokenHash)
    (hp : ∀ p ∈ db'.pairings, p ∈ db.pairings ∨ op.draws = some p.secretHash) :
    Change op db db' where
  ids := husers ▸ hn
  users u' hu' := .inr (.inr ⟨u', husers ▸ hu', rfl, rfl, rfl, by simp [hr]⟩)
  replaced := by simp [hr]
  sessions := ⟨new, fun s h => (hnew s h).1, fun s h => (hs s h).symm.imp_right (⟨·, by simp [hr]⟩)⟩
  challenges c h := (hc c h).symm.imp_right (⟨·, by simp [hr]⟩)
  pairings p h := (hp p h).symm.imp_right (⟨·, by simp [hr]⟩)
  active s h hkept := by
    have hold := (hs s h).elim hkept fun h => (hnew s h).2
    unfold Db.active at hold ⊢
    rwa [husers]

theorem change_createSession {s : Session} {subject hash : String} (hr : op.replaces db = none)
    (hd : op.draws = some s.tokenHash) (h : createSession s subject hash db = .ok db') :
    Change op db db' := by
  obtain ⟨⟨u, hu, hid, -, hstatus⟩, -, rfl⟩ := createSession_eq_ok h
  refine change_granted hn (some s) hr rfl ?_ ?_ (fun _ => .inl) fun _ => .inl
  · rintro t ht
    obtain rfl := Option.some.inj ht
    exact ⟨hd, active_of_row ⟨u, hu, hid, hstatus⟩⟩
  · exact fun t ht => (Table.mem_concat.1 ht).imp_right fun hnew => congrArg some hnew.symm

theorem change_createMFAChallenge {c : MFAChallenge} {hash : String} (hr : op.replaces db = none)
    (hd : op.draws = some c.tokenHash) (h : createMFAChallenge c hash db = .ok db') :
    Change op db db' := by
  obtain rfl := createMFAChallenge_eq_ok h
  refine change_granted hn none hr rfl nofun (fun _ => .inl) ?_ fun _ => .inl
  exact fun x hx => (Table.mem_concat.1 hx).imp_right fun hnew => by rw [hnew, hd]

theorem change_createPairing {p : DevicePairing}
    (hr : op.replaces db = none) (hd : op.draws = some p.secretHash)
    (h : Accounts.createPairing p db = .ok db') : Change op db db' := by
  rw [Accounts.createPairing, guard_error_eq_ok] at h
  obtain rfl := Except.ok.inj h.2
  refine change_granted hn none hr rfl nofun (fun _ => .inl) (fun _ => .inl) ?_
  exact fun x hx => (Table.mem_concat.1 hx).imp_right fun hnew => by rw [hnew, hd]

theorem change_createUser {user : User}
    (hr : op.replaces db = none) (hs : op.sets = some user.passwordHash)
    (h : db.createUser b user = .ok db') : Change op db db' := by
  obtain ⟨hfresh, codes, is, rfl⟩ := createUser_frame h
  refine ⟨Table.nodup_concat hn hfresh, ?_, by simp [hr], ⟨none, nofun, ?_⟩, ?_, ?_, ?_⟩
  · intro u' hu'
    rcases Table.mem_concat.1 hu' with hold | hnew
    · exact .inr (.inr ⟨u', hold, rfl, rfl, rfl, by simp [hr]⟩)
    · rw [hnew]
      exact .inr (.inl hs)
  · exact fun s hs => .inr ⟨hs, by simp [hr]⟩
  · exact fun c hc => .inr ⟨hc, by simp [hr]⟩
  · exact fun p hp => .inr ⟨hp, by simp [hr]⟩
  · exact fun s hs hkept => active_concat (hkept hs)

/-- A replacement writes the one row it selects, and everything the account was granted goes. -/
theorem change_replaced {p : User → Bool} {f : User → User} {id old new : String}
    (hp : ∀ u, p u = true → u.id = id ∧ u.ssoProvider = "local")
    (hf : ∀ u, (f u).id = u.id ∧ (f u).passwordHash = new)
    (hone : (db.users.filter p).length = 1) (hold : ∃ u ∈ db.users, u.id = id ∧ u.passwordHash = old)
    (hr : op.replaces db = some (id, old)) (hs : op.sets = some new)
    (husers : db'.users = Table.updateWhere p f db.users)
    (hsessions : db'.sessions = db.sessions.filter (·.userID ≠ id))
    (hchallenges : db'.challenges = db.challenges.filter (·.userID ≠ id))
    (hpairings : db'.pairings = db.pairings.filter (·.userID ≠ id)) : Change op db db' := by
  obtain ⟨v, hv⟩ := List.length_eq_one_iff.1 hone
  obtain ⟨hvmem, hpv⟩ := List.mem_filter.1 (hv ▸ List.mem_singleton_self v : v ∈ db.users.filter p)
  have hrow : ∀ u ∈ db.users, u.id = id → u = v := fun u hu hid =>
    List.inj_on_of_nodup_map hn hu hvmem (hid.trans (hp v hpv).1.symm)
  have hother : ∀ x : String, x ≠ id → ∀ r ∈ op.replaces db, x ≠ r.1 := by
    intro x hx r hmem
    rw [hr] at hmem
    obtain rfl := Option.some.inj hmem
    exact hx
  constructor
  · rw [husers]
    exact Table.nodup_updateWhere hn fun u => (hf u).1
  · intro u' hu'
    rw [husers] at hu'
    obtain ⟨u, hu, rfl⟩ := Table.mem_updateWhere.1 hu'
    split
    · right
      left
      rw [hs, (hf u).2]
    · next hpu =>
      refine .inr (.inr ⟨u, hu, rfl, rfl, rfl, hother u.id ?_⟩)
      intro hid
      exact hpu (hrow u hu hid ▸ hpv)
  · intro r hmem
    rw [hr] at hmem
    obtain rfl := Option.some.inj hmem
    obtain ⟨u, hu, hid, hhash⟩ := hold
    obtain rfl := hrow u hu hid
    exact ⟨u, hu, hid, hhash, (hp u hpv).2⟩
  · refine ⟨none, nofun, ?_⟩
    intro s hmem
    rw [hsessions] at hmem
    obtain ⟨hmem, hne⟩ := List.mem_filter.1 hmem
    exact .inr ⟨hmem, hother _ (of_decide_eq_true hne)⟩
  · intro c hmem
    rw [hchallenges] at hmem
    obtain ⟨hmem, hne⟩ := List.mem_filter.1 hmem
    exact .inr ⟨hmem, hother _ (of_decide_eq_true hne)⟩
  · intro x hmem
    rw [hpairings] at hmem
    obtain ⟨hmem, hne⟩ := List.mem_filter.1 hmem
    exact .inr ⟨hmem, hother _ (of_decide_eq_true hne)⟩
  · intro s hmem hkept
    rw [hsessions] at hmem
    obtain ⟨hmem, hne⟩ := List.mem_filter.1 hmem
    have hactive := hkept hmem
    simp only [Db.active, List.any_eq_true, Bool.and_eq_true, decide_eq_true_eq] at hactive
    obtain ⟨u, hu, hid, hstatus⟩ := hactive
    apply active_of_row
    refine ⟨u, ?_, hid, hstatus⟩
    rw [husers]
    refine Table.mem_updateWhere.2 ⟨u, hu, (if_neg ?_).symm⟩
    exact fun hpu => of_decide_eq_true hne (hid ▸ (hp u hpu).1)

theorem change_replacePassword {id old new ip details : String} {forced : Bool}
    (hr : op.replaces db = some (id, old))
    (hs : op.sets = some new) (h : replacePassword id old new ip forced details now db = .ok db') :
    Change op db db' := by
  obtain ⟨⟨u, hu, hid, hhash, -⟩, happly⟩ := withPassword_eq_ok h
  rw [guard_error_eq_ok, not_not] at happly
  obtain ⟨hone, happly⟩ := happly
  obtain rfl := Except.ok.inj happly
  refine change_replaced hn ?_ ?_ hone ⟨u, hu, hid, hhash⟩ hr hs rfl rfl rfl rfl
  · intro u hp
    simp only [replaceable, Bool.and_eq_true, decide_eq_true_eq] at hp
    exact ⟨hp.1.1, hp.2⟩
  · exact fun _ => ⟨rfl, rfl⟩

theorem change_resetAdminPassword {id new : String}
    (hr : op.replaces db = (db.user? id).map fun u => (id, u.passwordHash))
    (hs : op.sets = some new) (h : Accounts.resetAdminPassword id new now db = .ok db') :
    Change op db db' := by
  rw [Accounts.resetAdminPassword, guard_error_eq_ok, not_not] at h
  obtain ⟨hone, h⟩ := h
  obtain rfl := Except.ok.inj h
  -- the selected row is the one the account's id finds
  obtain ⟨v, hv⟩ := List.length_eq_one_iff.1 hone
  obtain ⟨hvmem, hlocal⟩ := List.mem_filter.1 (hv ▸ List.mem_singleton_self v :
    v ∈ db.users.filter (localRow id))
  simp only [localRow, Bool.and_eq_true, decide_eq_true_eq] at hlocal
  have hfind : db.user? id = some v := hlocal.1 ▸ Table.find_of_mem User.id hn hvmem
  rw [hfind] at hr
  refine change_replaced hn ?_ ?_ hone ⟨v, hvmem, hlocal.1, rfl⟩ hr hs rfl rfl rfl rfl
  · intro u hp
    simp only [localRow, Bool.and_eq_true, decide_eq_true_eq] at hp
    exact hp
  · exact fun _ => ⟨rfl, rfl⟩

end

end Change

/-! ## Every step -/

section Act

variable {b : Backend} {now : Int} {st st' : State}

theorem advance_eq_ok {f : Flight} {next : List Flight → Except Err State} :
    st.advance f next = .ok st' ↔ f ∈ st.flights ∧ next (st.flights.erase f) = .ok st' :=
  guard_else_error_eq_ok

theorem commit_eq_ok {flights : List Flight} {x : Except Err Db} :
    commit flights x = .ok st' ↔ x = .ok st'.db ∧ st'.flights = flights := by
  rw [commit, map_eq_ok]
  constructor
  · rintro ⟨db, h, rfl⟩
    exact ⟨h, rfl⟩
  · rintro ⟨h, rfl⟩
    exact ⟨st'.db, h, rfl⟩

section

variable {p q : Prop} [Decidable p] [Decidable q] {e e' : Err} {flights : List Flight} {x : Except Err Db}

/-- A stage of a request that writes. -/
theorem advance_commits (h : (if p then commit flights x else .error e) = .ok st') :
    p ∧ x = .ok st'.db ∧ st'.flights = flights :=
  (guard_else_error_eq_ok.1 h).imp_right commit_eq_ok.1

/-- A stage of a request that writes after a check. -/
theorem advance_checked (h : (if p then if q then .error e else commit flights x else .error e') =
    .ok st') : x = .ok st'.db ∧ st'.flights = flights :=
  commit_eq_ok.1 (guard_error_eq_ok.1 (guard_else_error_eq_ok.1 h).2).2

end

theorem signIn_eq_ok {login : Login} {user : Option User} (h : st.signIn login user = .ok st') :
    Spares st.db st'.db ∧ ∃ u, st'.flights = .signIn u login :: st.flights := by
  unfold State.signIn at h
  split at h
  · cases h
  next u =>
  simp only [guard_error_eq_ok] at h
  obtain rfl := Except.ok.inj h.2.2
  exact ⟨Spares.refl _, u, rfl⟩

variable {rest : List Flight}

theorem prove_eq_ok {c : MFAChallenge} (h : st.prove c rest = .ok st') :
    Spares st.db st'.db ∧ ∃ u, u.id = c.userID ∧ u.passwordHash = c.passwordHash ∧
      st'.flights = .proven c u :: rest := by
  unfold State.prove at h
  split at h
  · cases h
  next u hfind =>
  rw [guard_error_eq_ok, not_or, not_or, not_not, not_not] at h
  obtain ⟨⟨-, -, hhash⟩, h⟩ := h
  obtain rfl := Except.ok.inj h
  exact ⟨Spares.refl _, u, Table.key_of_find User.id hfind, hhash, rfl⟩

theorem load_eq_ok {s : Session} (h : st.load s rest = .ok st') :
    Spares st.db st'.db ∧ (st'.flights = rest ∨
      ∃ u ∈ st.db.users, u.id = s.userID ∧ st'.flights = .loaded s u :: rest) := by
  unfold State.load at h
  split at h
  · cases h
  next u hfind =>
  split at h
  · obtain rfl := Except.ok.inj h
    exact ⟨spares_deleteSession _ _, .inl rfl⟩
  · rw [guard_error_eq_ok] at h
    obtain rfl := Except.ok.inj h.2
    exact ⟨Spares.refl _, .inr ⟨u, Table.mem_of_find User.id hfind,
      Table.key_of_find User.id hfind, rfl⟩⟩

theorem see_eq_ok {tokenHash : String} {found : Session → Except Err Flight}
    (h : st.see tokenHash now rest found = .ok st') :
    Spares st.db st'.db ∧ (st'.flights = rest ∨
      ∃ s ∈ st.db.sessions, s.tokenHash = tokenHash ∧
        ∃ f, found s = .ok f ∧ st'.flights = f :: rest) := by
  unfold State.see getSession at h
  cases hfind : Table.find Session.tokenHash tokenHash st.db.sessions with
  | none =>
    simp only [hfind] at h
    obtain rfl := Except.ok.inj h
    exact ⟨Spares.refl _, .inl rfl⟩
  | some s =>
    simp only [hfind] at h
    by_cases hexpired : s.expiresAt < now
    · simp only [hexpired] at h
      obtain rfl := Except.ok.inj h
      exact ⟨spares_deleteSession _ _, .inl rfl⟩
    · simp only [hexpired] at h
      obtain ⟨f, hf, rfl⟩ := map_eq_ok.1 h
      exact ⟨Spares.refl _, .inr ⟨s, Table.mem_of_find _ hfind, Table.key_of_find _ hfind, f, hf,
        rfl⟩⟩

theorem spares_consume {tokenHash : String} {c : MFAChallenge} {db db' : Db}
    (h : consumeMFAChallenge tokenHash now db = .ok (c, db')) : Spares db db' := by
  unfold consumeMFAChallenge at h
  split at h
  · cases h
  rw [guard_error_eq_ok] at h
  obtain ⟨rfl, rfl⟩ := Prod.mk.inj (Except.ok.inj h.2)
  exact spares_of_users rfl (fun _ h => h) (fun _ hc => List.mem_of_mem_filter hc) fun _ h => h

theorem spares_updateRecoveryCodes {id old new : String} {db db' : Db}
    (h : updateRecoveryCodes id old new db = .ok db') : Spares db db' := by
  rw [updateRecoveryCodes, guard_error_eq_ok] at h
  obtain rfl := Except.ok.inj h.2
  refine spares_updateUsers ?_ rfl (fun _ h => h) (fun _ h => h) (fun _ h => h) ?_
  · exact fun _ => ⟨rfl, rfl, rfl⟩
  · exact fun _ _ _ _ _ hactive _ => hactive

theorem spares_updateMFA {id hash action ip : String} {fromState toState : MFAState} {db db' : Db}
    (h : Accounts.updateMFA id hash fromState toState action ip now db = .ok db') :
    Spares db db' := by
  obtain ⟨-, happly⟩ := withPassword_eq_ok h
  rw [guard_error_eq_ok] at happly
  obtain rfl := Except.ok.inj happly.2
  refine spares_updateUsers ?_ rfl (fun _ h => h) (fun _ h => h) (fun _ h => h) ?_
  · exact fun _ => ⟨rfl, rfl, rfl⟩
  · exact fun _ _ _ _ _ hactive _ => hactive

theorem spares_linkSSO {id sessionHash hash provider subject ip : String} {db db' : Db}
    (h : Accounts.linkSSO id sessionHash hash provider subject ip now db = .ok db') :
    Spares db db' := by
  simp only [Accounts.linkSSO, guard_error_eq_ok] at h
  obtain ⟨-, happly⟩ := withPassword_eq_ok h.2.2
  split at happly
  · cases happly
  simp only [guard_error_eq_ok] at happly
  obtain ⟨db₁, hinsert, rfl⟩ := map_eq_ok.1 happly.2.2
  obtain ⟨is, rfl⟩ := insertSSOIdentity_frame hinsert
  exact spares_of_eq rfl rfl rfl rfl

theorem spares_unlinkSSO {id hash provider ip : String} {db db' : Db}
    (h : Accounts.unlinkSSO id hash provider ip now db = .ok db') : Spares db db' := by
  rw [Accounts.unlinkSSO, guard_error_eq_ok] at h
  obtain ⟨-, happly⟩ := withPassword_eq_ok h.2
  split at happly
  · cases happly
  simp only [guard_error_eq_ok] at happly
  obtain rfl := Except.ok.inj happly.2.2
  exact spares_of_users rfl (fun _ hs => List.mem_of_mem_filter hs)
    (fun _ hc => List.mem_of_mem_filter hc) fun _ h => h

/-- Each step is one of the changes. -/
theorem act_change {op : Op} (hn : (st.db.users.map User.id).Nodup) (h : act b now st op = .ok st') :
    Change op st.db st'.db := by
  cases op with
  | createUser =>
    refine change_createUser hn rfl ?_ (commit_eq_ok.1 h).1
    rfl
  | provision =>
    simp only [act, guard_error_eq_ok, not_not] at h
    refine Spares.change (spares_createUser ?_ ?_ (commit_eq_ok.1 h.2).1) hn rfl
    · rfl
    · exact ne_local_of_providerID h.1
  | login => exact (signIn_eq_ok h).1.change hn rfl
  | callback =>
    simp only [act, guard_error_eq_ok] at h
    exact (signIn_eq_ok h.2).1.change hn rfl
  | challenge =>
    exact change_createMFAChallenge hn rfl rfl (advance_checked h).1
  | issue =>
    exact change_createSession hn rfl rfl (advance_checked h).1
  | consume =>
    obtain ⟨⟨c, db⟩, hconsume, rfl⟩ := map_eq_ok.1 h
    exact (spares_consume hconsume).change hn rfl
  | prove => exact (prove_eq_ok (advance_eq_ok.1 h).2).1.change hn rfl
  | redeem =>
    exact (spares_updateRecoveryCodes (advance_commits h).2.1).change hn rfl
  | issueMFA _ _ _ _ | renew _ _ _ =>
    exact change_createSession hn rfl rfl (advance_commits h).2.1
  | present => exact (see_eq_ok h).1.change hn rfl
  | load => exact (load_eq_ok (advance_eq_ok.1 h).2).1.change hn rfl
  | recheck =>
    simp only [act, advance_eq_ok] at h
    exact (see_eq_ok h.2).1.change hn rfl
  | updateMFA =>
    exact (spares_updateMFA (advance_checked h).1).change hn rfl
  | changePassword _ _ _ _ | completePasswordChange _ _ _ _ =>
    exact change_replacePassword hn rfl rfl (advance_checked h).1
  | startLink =>
    simp only [act, advance_eq_ok, guard_error_eq_ok] at h
    obtain rfl := Except.ok.inj h.2.2
    exact (Spares.refl st.db).change hn rfl
  | linkSSO =>
    exact (spares_linkSSO (advance_checked h).1).change hn rfl
  | unlinkSSO =>
    exact (spares_unlinkSSO (advance_checked h).1).change hn rfl
  | resetAdminPassword =>
    exact change_resetAdminPassword hn rfl rfl (commit_eq_ok.1 h).1
  | createPairing => exact change_createPairing hn rfl rfl (commit_eq_ok.1 h).1
  | deleteSession tokenHash =>
    obtain rfl := Except.ok.inj h
    exact (spares_deleteSession tokenHash st.db).change hn rfl
  | deleteUser =>
    exact (spares_adminQuorum (fun _ => spares_deleteRow) (commit_eq_ok.1 h).1).change hn rfl
  | directory =>
    exact (spares_applyDirectoryEvent hn (commit_eq_ok.1 h).1).change hn rfl
  | installerDirectory =>
    exact (spares_applyInstallerDirectory (commit_eq_ok.1 h).1).change hn rfl
  | revokeInstallerIdentity =>
    exact (spares_revokeInstallerIdentity (commit_eq_ok.1 h).1).change hn rfl

/-- What is known of a request when it takes off from `st`. -/
def Opens (st : State) : Flight → Prop
  | .proven c u => u.id = c.userID ∧ u.passwordHash = c.passwordHash
  | .shown s => s ∈ st.db.sessions
  | .loaded s u => .shown s ∈ st.flights ∧ u ∈ st.db.users ∧ u.id = s.userID
  | .accepted s u => .loaded s u ∈ st.flights ∧ ∃ s' ∈ st.db.sessions, s'.tokenHash = s.tokenHash
  | _ => True

theorem opens_cons {f : Flight} (h : st'.flights = f :: rest)
    (hf : Opens st f) (hrest : ∀ g ∈ rest, g ∈ st.flights) :
    ∀ g ∈ st'.flights, g ∈ st.flights ∨ Opens st g := by
  intro g hg
  rw [h] at hg
  rcases List.mem_cons.1 hg with rfl | hg
  · exact .inr hf
  · exact .inl (hrest g hg)

theorem opens_kept (h : st'.flights = rest)
    (hrest : ∀ g ∈ rest, g ∈ st.flights) : ∀ g ∈ st'.flights, g ∈ st.flights ∨ Opens st g :=
  fun g hg => .inl (hrest g (h ▸ hg))

theorem act_opens {op : Op} (h : act b now st op = .ok st') :
    ∀ f ∈ st'.flights, f ∈ st.flights ∨ Opens st f := by
  have hself : ∀ g ∈ st.flights, g ∈ st.flights := fun _ hg => hg
  have herase : ∀ f, ∀ g ∈ st.flights.erase f, g ∈ st.flights := fun _ _ => List.mem_of_mem_erase
  cases op with
  | createUser | resetAdminPassword _ _ | createPairing | deleteUser | directory _ _
  | installerDirectory | revokeInstallerIdentity _ _ =>
    exact opens_kept (commit_eq_ok.1 h).2 hself
  | provision =>
    simp only [act, guard_error_eq_ok, commit_eq_ok] at h
    exact opens_cons h.2.2 trivial hself
  | login =>
    obtain ⟨-, u, hflights⟩ := signIn_eq_ok h
    exact opens_cons hflights trivial hself
  | callback =>
    simp only [act, guard_error_eq_ok] at h
    obtain ⟨-, u, hflights⟩ := signIn_eq_ok h.2
    exact opens_cons hflights trivial hself
  | challenge _ _ _ _ | issue _ _ _ _ | updateMFA _ _ _ _ _ | completePasswordChange _ _ _ _
  | unlinkSSO =>
    exact opens_kept (advance_checked h).2 (herase _)
  | consume =>
    obtain ⟨⟨c, db⟩, -, rfl⟩ := map_eq_ok.1 h
    exact opens_cons rfl trivial hself
  | prove =>
    obtain ⟨-, u, hid, hhash, hflights⟩ := prove_eq_ok (advance_eq_ok.1 h).2
    exact opens_cons hflights ⟨hid, hhash⟩ (herase _)
  | redeem =>
    exact opens_kept (advance_commits h).2.2 hself
  | issueMFA _ _ _ _ | renew _ _ _ =>
    exact opens_kept (advance_commits h).2.2 (herase _)
  | present =>
    obtain ⟨-, hkept | ⟨s, hs, -, f, hf, hflights⟩⟩ := see_eq_ok h
    · exact opens_kept hkept hself
    · obtain rfl := Except.ok.inj hf
      exact opens_cons hflights hs hself
  | load =>
    obtain ⟨hflying, hload⟩ := advance_eq_ok.1 h
    obtain ⟨-, hkept | ⟨u, hu, hid, hflights⟩⟩ := load_eq_ok hload
    · exact opens_kept hkept (herase _)
    · exact opens_cons hflights ⟨hflying, hu, hid⟩ (herase _)
  | recheck =>
    simp only [act, advance_eq_ok] at h
    obtain ⟨hflying, hsee⟩ := h
    obtain ⟨-, hkept | ⟨s', hs', htoken, f, hf, hflights⟩⟩ := see_eq_ok hsee
    · exact opens_kept hkept (herase _)
    · rw [accepts, guard_error_eq_ok] at hf
      obtain rfl := Except.ok.inj hf.2
      exact opens_cons hflights ⟨hflying, s', hs', htoken⟩ (herase _)
  | changePassword =>
    exact opens_cons (advance_checked h).2 trivial (herase _)
  | startLink =>
    simp only [act, advance_eq_ok, guard_error_eq_ok] at h
    obtain rfl := Except.ok.inj h.2.2
    exact opens_cons rfl trivial (herase _)
  | linkSSO =>
    exact opens_kept (advance_checked h).2 fun g hg => herase _ g (List.mem_of_mem_erase hg)
  | deleteSession =>
    obtain rfl := Except.ok.inj h
    exact opens_kept rfl hself

/-- A step that rests on a password finds it standing. -/
theorem act_restsOn {op : Op} {id hash : String} (h : act b now st op = .ok st')
    (hop : op.restsOn = some (id, hash))
    (hproven : ∀ c u, .proven c u ∈ st.flights → u.id = c.userID ∧ u.passwordHash = c.passwordHash) :
    ∃ u ∈ st.db.users, u.id = id ∧ u.passwordHash = hash := by
  have hrow : ∀ {id' hash' : String} {apply : Db → Except Err Db} {db' : Db},
      withPassword id' hash' apply st.db = .ok db' → some (id', hash') = some (id, hash) →
        ∃ u ∈ st.db.users, u.id = id ∧ u.passwordHash = hash := by
    intro id' hash' apply db' hdb heq
    obtain ⟨rfl, rfl⟩ := Prod.mk.inj (Option.some.inj heq)
    obtain ⟨⟨u, hu, hid, hhash, -⟩, -⟩ := withPassword_eq_ok hdb
    exact ⟨u, hu, hid, hhash⟩
  cases op with
  | challenge _ _ _ _ | issue _ _ _ _ | updateMFA _ _ _ _ _ =>
    exact hrow (advance_checked h).1 hop
  | issueMFA c user =>
    obtain ⟨hflying, hdb, -⟩ := advance_commits h
    -- the account was compared with the challenge when it was read
    obtain ⟨hid, hhash⟩ := hproven c user hflying
    refine hrow hdb ?_
    rw [← hop, Op.restsOn, ← hid, ← hhash]
    rfl
  | changePassword =>
    have hdb := (advance_checked h).1
    rw [Accounts.changePassword] at hdb
    exact hrow hdb hop
  | renew =>
    exact hrow (advance_commits h).2.1 hop
  | completePasswordChange =>
    have hdb := (advance_checked h).1
    rw [Accounts.completePasswordChange] at hdb
    exact hrow hdb hop
  | linkSSO =>
    have hlink := (advance_checked h).1
    simp only [Accounts.linkSSO, guard_error_eq_ok] at hlink
    exact hrow hlink.2.2 hop
  | unlinkSSO =>
    have hunlink := (advance_checked h).1
    simp only [Accounts.unlinkSSO, guard_error_eq_ok] at hunlink
    exact hrow hunlink.2 hop
  | _ => cases hop

end Act

/-! ## Every run -/

/-- Nothing the account was granted before a replacement is left. -/
structure Ended (r : Replacement) (db : Db) : Prop where
  sessions : ∀ s ∈ db.sessions, s.userID = r.userID → s.tokenHash ∉ r.drawn
  challenges : ∀ c ∈ db.challenges, c.userID = r.userID → c.tokenHash ∉ r.drawn
  pairings : ∀ p ∈ db.pairings, p.userID = r.userID → p.secretHash ∉ r.drawn

/-- The account's hash is one there has been. -/
def Held (w : World) (u : User) : Prop := u.passwordHash = "" ∨ u.passwordHash ∈ w.hashes

/-- The session was issued, and its token belongs to nobody else. -/
def Known (w : World) (s : Session) : Prop :=
  s.tokenHash ∈ w.drawn ∧ ∀ s' ∈ w.state.db.sessions, s'.tokenHash = s.tokenHash → s'.userID = s.userID

/-- What is known of a request in flight. -/
def Holds (w : World) : Flight → Prop
  | .proven c u => u.id = c.userID ∧ u.passwordHash = c.passwordHash
  | .shown s => Known w s
  | .loaded s u => Known w s ∧ u.id = s.userID ∧ Held w u
  | .accepted s u => Held w u ∧
    ∀ r ∈ w.replaced, u.id = r.userID → u.passwordHash = r.new → s.tokenHash ∉ r.drawn
  | _ => True

/-- The invariant. -/
structure Inv (w : World) : Prop where
  ids : (w.state.db.users.map User.id).Nodup
  passwords : ∀ u ∈ w.state.db.users,
    (u.passwordHash = "" ∧ u.ssoProvider ≠ "local") ∨ u.passwordHash ∈ w.hashes
  nonempty : "" ∉ w.hashes
  spent : ∀ r ∈ w.replaced, r.old ∈ w.hashes ∧
    ∀ u ∈ w.state.db.users, u.id = r.userID → u.passwordHash ≠ r.old
  drawn : ∀ r ∈ w.replaced, ∀ t ∈ r.drawn, t ∈ w.drawn
  granted : ∀ s ∈ w.state.db.sessions, s.tokenHash ∈ w.drawn
  owner : ∀ s ∈ w.state.db.sessions, ∀ s' ∈ w.state.db.sessions, s'.tokenHash = s.tokenHash →
    s'.userID = s.userID
  active : ∀ s ∈ w.state.db.sessions, w.state.db.active s.userID = true
  ended : ∀ r ∈ w.replaced, Ended r w.state.db
  flights : ∀ f ∈ w.state.flights, Holds w f

section Run

variable {b : Backend} {x : Int × Op} {w w' : World}

/-- The world a step leads to, with the change it made. -/
structure Stepped (op : Op) (w w' : World) : Prop where
  change : Change op w.state.db w'.state.db
  opens : ∀ f ∈ w'.state.flights, f ∈ w.state.flights ∨ Opens w.state f
  hashes : w'.hashes = w.hashes ++ op.sets.toList
  drawn : w'.drawn = w.drawn ++ op.draws.toList
  replaced : w'.replaced = w.replaced ++ (w.replacement op).toList
  freshHash : ∀ hash, op.sets = some hash → hash ≠ "" ∧ hash ∉ w.hashes
  freshToken : ∀ token, op.draws = some token → token ∉ w.drawn

theorem stepped (hn : (w.state.db.users.map User.id).Nodup) (hfresh : fresh w x)
    (h : step b x w = .ok w') : Stepped x.2 w w' := by
  obtain ⟨st, hact, rfl⟩ := map_eq_ok.1 h
  refine ⟨act_change hn hact, act_opens hact, rfl, rfl, rfl, ?_, ?_⟩
  · intro hash hsets
    exact hfresh.1 hash (by simp [hsets])
  · intro token hdraws
    exact hfresh.2 token (by simp [hdraws])

namespace Stepped

variable {op : Op} (h : Stepped op w w')

include h

theorem mem_hashes {hash : String} (hmem : hash ∈ w.hashes) : hash ∈ w'.hashes := by
  rw [h.hashes]
  exact List.mem_append_left _ hmem

theorem mem_drawn {token : String} (hmem : token ∈ w.drawn) : token ∈ w'.drawn := by
  rw [h.drawn]
  exact List.mem_append_left _ hmem

/-- A replacement of the history is an old one, or the step's own. -/
theorem mem_replaced {r : Replacement} (hr : r ∈ w'.replaced) : r ∈ w.replaced ∨
    op.replaces w.state.db = some (r.userID, r.old) ∧ op.sets = some r.new ∧ r.drawn = w.drawn := by
  rw [h.replaced, List.mem_append] at hr
  rcases hr with hr | hr
  · exact .inl hr
  unfold World.replacement at hr
  split at hr
  · next userID old new hreplaces hsets =>
    rw [Option.toList_some, List.mem_singleton] at hr
    rw [hr]
    exact .inr ⟨hreplaces, hsets, rfl⟩
  · cases hr

theorem known {s : Session} (hs : Known w s) : Known w' s := by
  refine ⟨h.mem_drawn hs.1, ?_⟩
  obtain ⟨new, hnew, hall⟩ := h.change.sessions
  intro s' hs' htoken
  rcases hall s' hs' with hmem | ⟨hold, -⟩
  · exact absurd (htoken ▸ hs.1) (h.freshToken _ (hnew s' hmem))
  · exact hs.2 s' hold htoken

theorem holds {f : Flight} (hf : Holds w f) : Holds w' f := by
  have hheld : ∀ {u : User}, Held w u → Held w' u := fun hu => hu.imp id h.mem_hashes
  cases f with
  | proven => exact hf
  | shown => exact h.known hf
  | loaded => exact ⟨h.known hf.1, hf.2.1, hheld hf.2.2⟩
  | accepted =>
    refine ⟨hheld hf.1, ?_⟩
    intro r hr hid hhash
    rcases h.mem_replaced hr with hold | ⟨-, hsets, -⟩
    · exact hf.2 r hold hid hhash
    · -- the account was read before this hash was set
      obtain ⟨hne, hnew⟩ := h.freshHash r.new hsets
      rcases hf.1 with hempty | hmem
      · exact absurd (hhash.symm.trans hempty) hne
      · exact absurd (hhash ▸ hmem) hnew
  | _ => trivial

end Stepped

/-- A request that takes off is known to have read what it did. -/
theorem holds_of_opens {f : Flight} (hI : Inv w) (h : Opens w.state f) : Holds w f := by
  have hheld : ∀ u ∈ w.state.db.users, Held w u := fun u hu =>
    (hI.passwords u hu).imp And.left id
  cases f with
  | proven => exact h
  | shown s =>
    refine ⟨hI.granted s h, ?_⟩
    exact fun s' hs' => hI.owner s h s' hs'
  | loaded s u =>
    obtain ⟨hshown, hu, hid⟩ := h
    exact ⟨hI.flights _ hshown, hid, hheld u hu⟩
  | accepted =>
    obtain ⟨hloaded, s', hs', htoken⟩ := h
    obtain ⟨⟨-, howner⟩, hid, hu⟩ := hI.flights _ hloaded
    refine ⟨hu, ?_⟩
    intro r hr huser _
    -- the session found again is the same one, and no replacement so far is younger than it
    rw [← htoken]
    exact (hI.ended r hr).sessions s' hs' ((howner s' hs' htoken).trans (hid.symm.trans huser))
  | _ => trivial

namespace Stepped

variable {op : Op} (hI : Inv w) (h : Stepped op w w')

include hI h

variable {r : Replacement}

/-- What a step draws is on no earlier list. -/
theorem drawn_of_mem_replaced {token : String} (hr : r ∈ w'.replaced)
    (ht : token ∈ r.drawn) : token ∈ w.drawn := by
  rcases h.mem_replaced hr with hold | ⟨-, -, hdrawn⟩
  · exact hI.drawn r hold token ht
  · exact hdrawn ▸ ht

/-- A grant that is there after the step was not drawn before a replacement of its account. -/
theorem not_drawn (hr : r ∈ w'.replaced) {id token : String} (hid : id = r.userID)
    (hgrant : op.draws = some token ∨
      (r ∈ w.replaced → token ∉ r.drawn) ∧ ∀ x ∈ op.replaces w.state.db, id ≠ x.1) :
    token ∉ r.drawn := by
  rcases hgrant with hdraws | ⟨hold, hother⟩
  · exact fun ht => h.freshToken token hdraws (h.drawn_of_mem_replaced hI hr ht)
  · rcases h.mem_replaced hr with hmem | ⟨hreplaces, -, -⟩
    · exact hold hmem
    · exact absurd hid (hother _ hreplaces)

theorem ended (hr : r ∈ w'.replaced) : Ended r w'.state.db where
  sessions s hs hid := by
    obtain ⟨new, hnew, hall⟩ := h.change.sessions
    apply h.not_drawn hI hr hid
    rcases hall s hs with hmem | ⟨hold, hother⟩
    · exact .inl (hnew s hmem)
    · exact .inr ⟨fun hr => (hI.ended r hr).sessions s hold hid, hother⟩
  challenges c hc hid := by
    apply h.not_drawn hI hr hid
    rcases h.change.challenges c hc with hdraws | ⟨hold, hother⟩
    · exact .inl hdraws
    · exact .inr ⟨fun hr => (hI.ended r hr).challenges c hold hid, hother⟩
  pairings p hp hid := by
    apply h.not_drawn hI hr hid
    rcases h.change.pairings p hp with hdraws | ⟨hold, hother⟩
    · exact .inl hdraws
    · exact .inr ⟨fun hr => (hI.ended r hr).pairings p hold hid, hother⟩

/-- A hash that was replaced is never an account's again. -/
theorem ne_of_old {old id : String} (hold : old ∈ w.hashes)
    (hrow : (∀ u ∈ w.state.db.users, u.id = id → u.passwordHash ≠ old) ∨
      ∃ x ∈ op.replaces w.state.db, x.1 = id) :
    ∀ u' ∈ w'.state.db.users, u'.id = id → u'.passwordHash ≠ old := by
  intro u' hu' hid heq
  rcases h.change.users u' hu' with ⟨hempty, -⟩ | hsets | ⟨u, hu, hid', hhash, -, hother⟩
  · rw [← heq, hempty] at hold
    exact hI.nonempty hold
  · exact (h.freshHash _ hsets).2 (heq ▸ hold)
  · rcases hrow with hrow | ⟨x, hx, hxid⟩
    · exact hrow u hu (hid'.trans hid) (hhash.trans heq)
    · exact hother x hx ((hid'.trans hid).trans hxid.symm)

theorem spent (hr : r ∈ w'.replaced) : r.old ∈ w'.hashes ∧
    ∀ u ∈ w'.state.db.users, u.id = r.userID → u.passwordHash ≠ r.old := by
  rcases h.mem_replaced hr with hold | ⟨hreplaces, -, -⟩
  · obtain ⟨hmem, hrow⟩ := hI.spent r hold
    exact ⟨h.mem_hashes hmem, h.ne_of_old hI hmem (.inl hrow)⟩
  -- the replaced hash was a local account's
  obtain ⟨u, hu, -, hhash, hlocal⟩ := h.change.replaced _ hreplaces
  have hmem : r.old ∈ w.hashes := by
    have hold : u.passwordHash = r.old := hhash
    rcases hI.passwords u hu with ⟨-, hne⟩ | hmem
    · exact absurd hlocal hne
    · exact hold ▸ hmem
  exact ⟨h.mem_hashes hmem, h.ne_of_old hI hmem (.inr ⟨_, hreplaces, rfl⟩)⟩

theorem passwords : ∀ u ∈ w'.state.db.users,
    (u.passwordHash = "" ∧ u.ssoProvider ≠ "local") ∨ u.passwordHash ∈ w'.hashes := by
  intro u' hu'
  rcases h.change.users u' hu' with hnew | hsets | ⟨u, hu, -, hhash, hprovider, -⟩
  · exact .inl hnew
  · right
    rw [h.hashes, hsets]
    exact List.mem_append_right _ (List.mem_singleton_self _)
  · rcases hI.passwords u hu with ⟨hempty, hne⟩ | hmem
    · exact .inl ⟨hhash ▸ hempty, hprovider ▸ hne⟩
    · exact .inr (h.mem_hashes (hhash ▸ hmem))

theorem nonempty : "" ∉ w'.hashes := by
  rw [h.hashes, List.mem_append, Option.mem_toList]
  rintro (hmem | hsets)
  · exact hI.nonempty hmem
  · exact (h.freshHash "" hsets).1 rfl

theorem owner : ∀ s ∈ w'.state.db.sessions, ∀ s' ∈ w'.state.db.sessions,
    s'.tokenHash = s.tokenHash → s'.userID = s.userID := by
  obtain ⟨new, hnew, hall⟩ := h.change.sessions
  intro s hs s' hs' htoken
  rcases hall s hs with hmem | ⟨hold, -⟩
  · rcases hall s' hs' with hmem' | ⟨hold', -⟩
    · rw [Option.mem_unique hmem hmem']
    · exact absurd (htoken ▸ hI.granted s' hold') (h.freshToken _ (hnew s hmem))
  · rcases hall s' hs' with hmem' | ⟨hold', -⟩
    · exact absurd (htoken ▸ hI.granted s hold) (h.freshToken _ (hnew s' hmem'))
    · exact hI.owner s hold s' hold' htoken

theorem granted : ∀ s ∈ w'.state.db.sessions, s.tokenHash ∈ w'.drawn := by
  obtain ⟨new, hnew, hall⟩ := h.change.sessions
  intro s hs
  rcases hall s hs with hmem | ⟨hold, -⟩
  · rw [h.drawn, hnew s hmem]
    exact List.mem_append_right _ (List.mem_singleton_self _)
  · exact h.mem_drawn (hI.granted s hold)

theorem inv : Inv w' where
  ids := h.change.ids
  passwords := h.passwords hI
  nonempty := h.nonempty hI
  spent _ hr := h.spent hI hr
  drawn _ hr _ ht := h.mem_drawn (h.drawn_of_mem_replaced hI hr ht)
  granted := h.granted hI
  owner := h.owner hI
  active s hs := h.change.active s hs (hI.active s)
  ended _ hr := h.ended hI hr
  flights f hf := h.holds ((h.opens f hf).elim (hI.flights f) (holds_of_opens hI))

end Stepped

theorem inv_start {db : Db} (hdb : Begins db) : Inv (World.start db) where
  ids := hdb.ids
  passwords u hu := by
    by_cases hlocal : u.ssoProvider = "local"
    · right
      exact List.mem_map.2 ⟨u, List.mem_filter.2 ⟨hu, decide_eq_true hlocal⟩, rfl⟩
    · exact .inl ⟨(hdb.passwords u hu).2 hlocal, hlocal⟩
  nonempty hmem := by
    obtain ⟨u, hu, hempty⟩ := List.mem_map.1 hmem
    obtain ⟨hu, hlocal⟩ := List.mem_filter.1 hu
    exact (hdb.passwords u hu).1 hempty (of_decide_eq_true hlocal)
  spent _ hr := absurd hr List.not_mem_nil
  drawn _ hr := absurd hr List.not_mem_nil
  granted s hs := by
    simp only [World.start, grants, List.mem_append, List.mem_map]
    exact .inl (.inl ⟨s, hs, rfl⟩)
  owner s hs s' hs' htoken := by
    rw [List.inj_on_of_nodup_map hdb.tokens hs' hs htoken]
  active := hdb.active
  ended _ hr := absurd hr List.not_mem_nil
  flights _ hf := absurd hf List.not_mem_nil

/-- Replacing a password, or switching an account off, ends what came before: in every interleaving
(1) nothing an account was granted before a replacement is left after it, (2) no step commits on the
strength of a replaced hash, (3) a session belongs to an active account, and (4) no request is
accepted on a session from before a replacement with the account as the replacement left it. -/
theorem replacement_ends_what_came_before {db : Db} (hdb : Begins db)
    (hrun : ((machine b).restrict fresh).Steps (World.start db) w) :
    (∀ r ∈ w.replaced, Ended r w.state.db) ∧
      (∀ now op w₁, step b (now, op) w = .ok w₁ → ∀ id hash, op.restsOn = some (id, hash) →
        ∀ r ∈ w.replaced, r.userID = id → r.old ≠ hash) ∧
      (∀ s ∈ w.state.db.sessions, w.state.db.active s.userID = true) ∧
      ∀ s u, .accepted s u ∈ w.state.flights → ∀ r ∈ w.replaced, u.id = r.userID →
        u.passwordHash = r.new → s.tokenHash ∉ r.drawn := by
  have hI : Inv w := by
    refine Machine.restrict_keeps ?_ hrun (inv_start hdb)
    intro x w₁ w₂ hI hfresh hstep
    exact (stepped hI.ids hfresh hstep).inv hI
  refine ⟨hI.ended, ?_, hI.active, ?_⟩
  · intro now op w₁ hstep id hash hop r hr hid heq
    obtain ⟨st, hact, -⟩ := map_eq_ok.1 hstep
    obtain ⟨u, hu, huid, hhash⟩ := act_restsOn hact hop fun c u hf => hI.flights _ hf
    exact (hI.spent r hr).2 u hu (huid.trans hid.symm) (hhash.trans heq.symm)
  · intro s u hf r hr hid hhash
    exact (hI.flights _ hf).2 r hr hid hhash

end Run

/-! ## A change of password with a sign-in in flight -/

/-- An active local account that signs in with its password. -/
def alice : User where
  id := "usr_1"
  username := "alice"
  email := ""
  displayName := "Alice"
  passwordHash := "hash-1"
  role := "user"
  status := "active"
  ssoProvider := "local"
  ssoSubject := ""
  totpSecretEnc := ""
  totpEnabled := false
  recoveryCodesHash := "[]"
  mustChangePassword := false

def aliceDb : Db := { Db.empty with users := [alice] }

def aliceSession : Session := Login.password.session alice.id "token-1" 1000 0

/-- Two sign-ins read the account; one gets its session and changes the password with it, and the
other then asks for a session too. -/
def changedMidway : List (Int × Op) :=
  [(0, .login "alice"), (0, .login "alice"), (0, .issue alice .password "token-1" 1000),
    (1, .present "token-1"), (1, .load aliceSession), (1, .recheck aliceSession alice true),
    (2, .changePassword aliceSession alice "hash-2" ""),
    (3, .issue alice .password "token-2" 1000)]

def aliceBackend : Backend := ⟨.postgres, id⟩

theorem replacement_ends_what_came_before_alice :
    Begins aliceDb ∧
      let w := ((machine aliceBackend).restrict fresh).run changedMidway (World.start aliceDb)
      w.replaced.map Replacement.userID = ["usr_1"] ∧ w.drawn = ["token-1"] ∧
        .signIn alice .password ∈ w.state.flights ∧ ∀ r ∈ w.replaced, Ended r w.state.db := by
  have hdb : Begins aliceDb := ⟨by decide, by decide, by decide, by decide⟩
  refine ⟨hdb, by decide +kernel, by decide +kernel, by decide +kernel, ?_⟩
  exact (replacement_ends_what_came_before hdb (Machine.steps_run _ _)).1

end KyYard.Accounts.Passwords

import KyYard.Accounts.Members

/-!
# Credentials an administrator hands out

AI agent tokens, status feeds and kyPulse pairing codes. Each is created under `runAs`, so by an
active administrator of its organization, and names them as its creator; a claimed code becomes a
kyPulse token, which is no person's credential. `Issues` is what all of these transactions have in
common: authority stays, and what is new was created by someone who has it.
-/

namespace KyYard.Accounts

open Foundation
open Store (validTenantName)

/-- What a credential draws at random: its id's suffix and the secret whose hash is stored. -/
structure Draw where
  suffix : String
  secret : List UInt8
deriving DecidableEq

def maxAgentTokens : Nat := 20

def maxStatusFeeds : Nat := 20

def maxPairingCodeDraws : Nat := 20

/-- Fifteen minutes. -/
def pairingLife : Int := 900000000000

/-- The name of a token or a feed: `validAgentName` and `validFeedName`. -/
def validAgentName (name : String) : Bool :=
  name ≠ "" && name.length ≤ 64 && Text.trimSpace name = name && validTenantName name

/-- The name of a service. -/
def serviceNameRe : Pattern :=
  .seq (.one Class.lower) (.rep 0 63 (.one (Class.orOf Class.lower "0123456789_-")))

namespace Db

/-- An insert into `service_tokens`: the id and the hash are unique. -/
def insertServiceToken (t : ServiceToken) (db : Db) : Except Err Db :=
  if db.serviceTokens.any (fun t' => t'.id = t.id || t'.tokenHash = t.tokenHash) then
    .error .alreadyExists
  else .ok { db with serviceTokens := db.serviceTokens ++ [t] }

/-- The id and the hash are unique. -/
def insertStatusFeed (f : StatusFeed) (db : Db) : Except Err Db :=
  if db.statusFeeds.any (fun f' => f'.id = f.id || f'.tokenHash = f.tokenHash) then
    .error .alreadyExists
  else .ok { db with statusFeeds := db.statusFeeds ++ [f] }

/-- The id is unique. -/
def insertServicePairing (p : ServicePairing) (db : Db) : Except Err Db :=
  if db.servicePairings.any (fun p' => p'.id = p.id) then .error .alreadyExists
  else .ok { db with servicePairings := db.servicePairings ++ [p] }

end Db

/-- `CreateAgentToken`. -/
def createAgentToken (a : TenantAccess) (name scope : String) (draw : Draw) (now : Int) (db : Db) :
    Except Refusal Db :=
  match Scope.agent? scope with
  | none => .error ⟨.invalid, none⟩
  | some scope =>
    if ¬ validAgentName name then .error ⟨.invalid, none⟩
    else
      (Request.of a .agentTokensManage ("agt_" ++ draw.suffix) now).runAs (fun db =>
        if maxAgentTokens ≤ (db.serviceTokens.filter fun t =>
            t.organizationID = a.organizationID && t.live).length then
          .error .agentTokenLimit
        else
          (db.insertServiceToken
            { id := "agt_" ++ draw.suffix
              organizationID := a.organizationID
              name := name
              tokenHash := sha256Hex draw.secret
              createdBy := a.principal
              createdAt := now
              scope := scope
              revokedAt := none
              revokedBy := "" }).map (·, "scope=" ++ scope.name)) db

/-- `SetAgentTokenScope`. -/
def setAgentTokenScope (a : TenantAccess) (id scope : String) (now : Int) (db : Db) :
    Except Refusal Db :=
  match Scope.agent? scope with
  | none => .error ⟨.invalid, none⟩
  | some scope =>
    (Request.of a .agentTokensManage id now).runAs (fun db =>
      match db.serviceTokens.find? fun t =>
          t.id = id && t.organizationID = a.organizationID && t.live with
      | none => .error .notFound
      | some t =>
        .ok ({ db with
          serviceTokens := Table.updateWhere
            (fun t => t.id = id && t.organizationID = a.organizationID && t.revokedAt.isNone)
            (fun t => { t with scope := scope }) db.serviceTokens },
          "from=" ++ t.scope.name ++ " to=" ++ scope.name)) db

/-- `CreateStatusFeed`. -/
def createStatusFeed (a : TenantAccess) (name : String) (draw : Draw) (now : Int) (db : Db) :
    Except Refusal Db :=
  if ¬ validAgentName name then .error ⟨.invalid, none⟩
  else
    Request.runAs ⟨a, .statusFeedsManage, "status_feed.create", "feed_" ++ draw.suffix, now⟩
      (fun db =>
        if maxStatusFeeds ≤ (db.statusFeeds.filter fun f =>
            f.organizationID = a.organizationID && f.live).length then
          .error .statusFeedLimit
        else
          (db.insertStatusFeed
            { id := "feed_" ++ draw.suffix
              organizationID := a.organizationID
              name := name
              tokenHash := sha256Hex draw.secret
              createdBy := a.principal
              createdAt := now
              revokedAt := none
              revokedBy := "" }).map (·, "")) db

/-- Six digits of the `i`th number drawn. -/
def pairingCode (draws : Nat → Nat) (i : Nat) : String :=
  String.ofList (List.leftpad 6 '0' (Text.itoa (draws i % 1000000)).toList)

/-- `CreateServicePairing`: expired codes go, and the first drawn code that no live pairing holds is
taken. -/
def createServicePairing (a : TenantAccess) (id : String) (draws : Nat → Nat) (now : Int) :
    Db → Except Refusal Db :=
  (Request.of a .serviceTokensManage id now).runAs fun db =>
    let db := { db with servicePairings := db.servicePairings.filter fun p => ¬ p.expiresAt < now }
    let hashes := (List.range maxPairingCodeDraws).map fun i =>
      sha256Hex (pairingCode draws i).toUTF8.toList
    match hashes.find? fun hash => ¬ db.servicePairings.any fun p =>
        p.codeHash = hash && p.live && now < p.expiresAt with
    | none => .error .pairingCodesExhausted
    | some hash =>
      (db.insertServicePairing
        { id := id
          organizationID := a.organizationID
          codeHash := hash
          createdBy := a.actorID
          createdAt := now
          expiresAt := now + pairingLife
          consumedAt := none }).map (·, "")

/-- The live pairing a code names, the oldest first. -/
def claimedPairing (code : String) (now : Int) (db : Db) : Option ServicePairing :=
  ((db.servicePairings.filter fun p =>
      db.organizations.any (fun o => o.id = p.organizationID) &&
        p.codeHash = sha256Hex code.toUTF8.toList && p.live && now < p.expiresAt).insertionSort
    fun p q => p.createdAt < q.createdAt ∨
      p.createdAt = q.createdAt ∧ Text.le p.id q.id = true).head?

/-- `ClaimServiceToken`: the code is consumed and a kyPulse token takes its place. -/
def claimServiceToken (code serviceName ip : String) (draw : Draw) (now : Int) (db : Db) :
    Except Err Db :=
  if code.utf8ByteSize ≠ 6 ∨ ¬ serviceNameRe.accepts serviceName then .error .forbidden
  else
    match claimedPairing code now db with
    | none => .error .forbidden
    | some p =>
      let id := "svc_" ++ draw.suffix
      let db₁ := { db with
        servicePairings := Table.updateWhere (fun q => q.id = p.id && q.consumedAt.isNone)
          (fun q => { q with consumedAt := some now }) db.servicePairings }
      (db₁.insertServiceToken
        { id := id
          organizationID := p.organizationID
          name := serviceName
          tokenHash := sha256Hex draw.secret
          createdBy := "pairing:" ++ p.id
          createdAt := now
          scope := .pulse
          revokedAt := none
          revokedBy := "" }).map fun db₂ => db₂.log
        { userID := "service:" ++ id
          action := "service_token.claim"
          resource := id
          details := "service=" ++ serviceName
          ipAddress := ip
          createdAt := now
          scope := "organization"
          organizationID := p.organizationID
          environmentID := ""
          result := "success" }

/-! ## What issuance changes -/

/-- From `db` to `db'` authority stays, and whatever credential is new was created by an
administrator of its organization. -/
structure Issues (db db' : Db) : Prop extends SameAuthority db db' where
  ids : ∀ k, (db'.ids k).Nodup
  live : ∀ k, ∀ c ∈ db'.live k,
    c ∈ db.live k ∨ db.administers c.organizationID c.createdBy = true

section Issues

variable {db db₁ db' : Db}

theorem Issues.trans (h : Issues db db₁) (h' : Issues db₁ db') : Issues db db' where
  toSameAuthority := h.toSameAuthority.trans h'.toSameAuthority
  ids := h'.ids
  live k c hc := by
    rcases h'.live k c hc with hc | hadmin
    · exact h.live k c hc
    · exact .inr (h.administers _ _ ▸ hadmin)

theorem issues_log (hn : ∀ k, (db.ids k).Nodup) (r : AuditRecord) : Issues db (db.log r) := by
  refine ⟨Db.sameAuthority_log r, fun k => hn k, fun k c hc => .inl ?_⟩
  rwa [Db.live_log] at hc

/-- One more row in a table may be live. -/
theorem mem_live_concat {α : Type} {lives : α → Bool} {cred : α → Credential} {t : List α} {r : α}
    {c : Credential} (hc : c ∈ ((t ++ [r]).filter lives).map cred) :
    c ∈ (t.filter lives).map cred ∨ lives r = true ∧ c = cred r := by
  rw [List.filter_append, List.map_append, List.mem_append] at hc
  rcases hc with hc | hc
  · exact .inl hc
  · obtain ⟨x, hx, rfl⟩ := List.mem_map.1 hc
    obtain ⟨hx, hlives⟩ := List.mem_filter.1 hx
    obtain rfl := List.mem_singleton.1 hx
    exact .inr ⟨hlives, rfl⟩

section

variable (hn : ∀ k, (db.ids k).Nodup)
include hn

/-- A write to the table of one kind. -/
theorem issues_at (kind : CredentialKind) (hauth : SameAuthority db db')
    (hother : ∀ k, k ≠ kind → db'.ids k = db.ids k ∧ db'.live k = db.live k)
    (hids : (db'.ids kind).Nodup)
    (hlive : ∀ c ∈ db'.live kind,
      c ∈ db.live kind ∨ db.administers c.organizationID c.createdBy = true) : Issues db db' where
  toSameAuthority := hauth
  ids k := by
    by_cases hk : k = kind
    · exact hk ▸ hids
    · exact (hother k hk).1 ▸ hn k
  live k c hc := by
    by_cases hk : k = kind
    · subst hk
      exact hlive c hc
    · exact .inl ((hother k hk).2 ▸ hc)

theorem issues_insertServiceToken {t : ServiceToken} (h : db.insertServiceToken t = .ok db')
    (ht : t.live = true → db.administers t.organizationID t.createdBy = true) : Issues db db' := by
  simp only [Db.insertServiceToken, guard_error_eq_ok, List.any_eq_true, not_exists, not_and,
    Bool.or_eq_true, decide_eq_true_eq, not_or] at h
  obtain ⟨hfresh, h⟩ := h
  obtain rfl := Except.ok.inj h
  refine issues_at hn .agentToken ⟨rfl, rfl⟩ ?_ ?_ ?_
  · rintro (_ | _ | _) hk <;> first | exact ⟨rfl, rfl⟩ | exact absurd rfl hk
  · exact Table.nodup_concat (hn .agentToken) fun x hx => (hfresh x hx).1
  · intro c hc
    rcases mem_live_concat hc with hc | ⟨hlive, hnew⟩
    · exact .inl hc
    · exact .inr (hnew ▸ ht hlive)

theorem issues_insertStatusFeed {f : StatusFeed} (h : db.insertStatusFeed f = .ok db')
    (hf : db.administers f.organizationID f.createdBy = true) : Issues db db' := by
  simp only [Db.insertStatusFeed, guard_error_eq_ok, List.any_eq_true, not_exists, not_and,
    Bool.or_eq_true, decide_eq_true_eq, not_or] at h
  obtain ⟨hfresh, h⟩ := h
  obtain rfl := Except.ok.inj h
  refine issues_at hn .statusFeed ⟨rfl, rfl⟩ ?_ ?_ ?_
  · rintro (_ | _ | _) hk <;> first | exact ⟨rfl, rfl⟩ | exact absurd rfl hk
  · exact Table.nodup_concat (hn .statusFeed) fun x hx => (hfresh x hx).1
  · intro c hc
    rcases mem_live_concat hc with hc | ⟨-, hnew⟩
    · exact .inl hc
    · exact .inr (hnew ▸ hf)

theorem issues_insertServicePairing {p : ServicePairing} (h : db.insertServicePairing p = .ok db')
    (hp : db.administers p.organizationID p.createdBy = true) : Issues db db' := by
  simp only [Db.insertServicePairing, guard_error_eq_ok, List.any_eq_true, not_exists, not_and,
    decide_eq_true_eq] at h
  obtain ⟨hfresh, h⟩ := h
  obtain rfl := Except.ok.inj h
  refine issues_at hn .pairingCode ⟨rfl, rfl⟩ ?_ ?_ ?_
  · rintro (_ | _ | _) hk <;> first | exact ⟨rfl, rfl⟩ | exact absurd rfl hk
  · exact Table.nodup_concat (hn .pairingCode) hfresh
  · intro c hc
    rcases mem_live_concat hc with hc | ⟨-, hnew⟩
    · exact .inl hc
    · exact .inr (hnew ▸ hp)

/-- Codes that go or are consumed. -/
theorem issues_pairings {ps : List ServicePairing} (hids : (ps.map ServicePairing.id).Nodup)
    (hlive : ∀ p ∈ ps, p.live = true → p ∈ db.servicePairings) :
    Issues db { db with servicePairings := ps } := by
  refine issues_at hn .pairingCode ⟨rfl, rfl⟩ ?_ ?_ ?_
  · rintro (_ | _ | _) hk <;> first | exact ⟨rfl, rfl⟩ | exact absurd rfl hk
  · exact hids
  · intro c hc
    obtain ⟨p, hp, rfl⟩ := List.mem_map.1 hc
    obtain ⟨hp, hl⟩ := List.mem_filter.1 hp
    exact .inl (List.mem_map.2 ⟨p, List.mem_filter.2 ⟨hlive p hp hl, hl⟩, rfl⟩)

end

/-- A request that hands a credential out issues what its operation does for an administrator. -/
theorem issues_runAs {r : Request} {op : Db → Except Err (Db × String)}
    (hd : r.action.delegates = true)
    (hop : ∀ db₁ details, op db = .ok (db₁, details) → r.access.principal = r.access.actorID →
      db.administers r.access.organizationID r.access.actorID = true → Issues db db₁)
    (h : r.runAs op db = .ok db') : Issues db db' := by
  obtain ⟨-, hauth, db₁, details, hdb₁, rfl⟩ := Request.runAs_eq_ok.1 h
  obtain ⟨htoken, hadmin⟩ := Request.administers_of_authorize hauth hd
  have hprincipal : r.access.principal = r.access.actorID := by simp [TenantAccess.principal, htoken]
  have hissues := hop db₁ details hdb₁ hprincipal hadmin
  exact hissues.trans (issues_log hissues.ids _)

variable {a : TenantAccess}

section

variable (hn : ∀ k, (db.ids k).Nodup)
include hn

theorem issues_createAgentToken {name scope : String} {draw : Draw} {now : Int}
    (h : createAgentToken a name scope draw now db = .ok db') : Issues db db' := by
  unfold createAgentToken at h
  split at h
  · cases h
  rw [guard_error_eq_ok] at h
  apply issues_runAs rfl _ h.2
  intro db₁ details hop hprincipal hadmin
  simp only [guard_error_eq_ok, map_eq_ok] at hop
  obtain ⟨-, db₂, hinsert, heq⟩ := hop
  obtain ⟨rfl, -⟩ := Prod.mk.inj heq
  apply issues_insertServiceToken hn hinsert
  intro _
  rw [show a.principal = a.actorID from hprincipal]
  exact hadmin

theorem issues_createStatusFeed {name : String} {draw : Draw} {now : Int}
    (h : createStatusFeed a name draw now db = .ok db') : Issues db db' := by
  simp only [createStatusFeed, guard_error_eq_ok] at h
  apply issues_runAs rfl _ h.2
  intro db₁ details hop hprincipal hadmin
  simp only [guard_error_eq_ok, map_eq_ok] at hop
  obtain ⟨-, db₂, hinsert, heq⟩ := hop
  obtain ⟨rfl, -⟩ := Prod.mk.inj heq
  apply issues_insertStatusFeed hn hinsert
  rw [show a.principal = a.actorID from hprincipal]
  exact hadmin

/-- Between the two agent scopes a token stays what it is to the sweep. -/
theorem issues_setAgentTokenScope {id scope : String} {now : Int}
    (h : setAgentTokenScope a id scope now db = .ok db') : Issues db db' := by
  unfold setAgentTokenScope at h
  split at h
  · cases h
  next scope' hscope =>
  apply issues_runAs rfl _ h
  intro db₁ details hop _ _
  split at hop
  · cases hop
  next t ht =>
  obtain ⟨rfl, -⟩ := Prod.mk.inj (Except.ok.inj hop)
  have hmem := List.mem_of_find?_eq_some ht
  have htest := List.find?_some ht
  simp only [Bool.and_eq_true, decide_eq_true_eq] at htest
  obtain ⟨⟨hid, -⟩, hlive⟩ := htest
  refine issues_at hn .agentToken ⟨rfl, rfl⟩ ?_ ?_ ?_
  · rintro (_ | _ | _) hk <;> first | exact ⟨rfl, rfl⟩ | exact absurd rfl hk
  · exact Table.nodup_updateWhere (hn .agentToken) fun _ => rfl
  · intro c hc
    left
    obtain ⟨t', ht', rfl⟩ := List.mem_map.1 hc
    obtain ⟨ht', hlive'⟩ := List.mem_filter.1 ht'
    obtain ⟨t₀, ht₀, rfl⟩ := Table.mem_updateWhere.1 ht'
    split at hlive' <;> rename_i hsel
    · -- the row that changes is the one that was read
      simp only [Bool.and_eq_true, decide_eq_true_eq] at hsel
      obtain rfl := List.inj_on_of_nodup_map (hn .agentToken) ht₀ hmem (hsel.1.1.trans hid.symm)
      rw [if_pos (by simpa using hsel)]
      exact List.mem_map.2 ⟨t₀, List.mem_filter.2 ⟨ht₀, hlive⟩, rfl⟩
    · rw [if_neg hsel]
      exact List.mem_map.2 ⟨t₀, List.mem_filter.2 ⟨ht₀, hlive'⟩, rfl⟩

theorem issues_createServicePairing {id : String} {draws : Nat → Nat} {now : Int}
    (h : createServicePairing a id draws now db = .ok db') : Issues db db' := by
  apply issues_runAs rfl _ h
  intro db₁ details hop _ hadmin
  simp only at hop
  split at hop
  · cases hop
  simp only [map_eq_ok] at hop
  obtain ⟨db₂, hinsert, heq⟩ := hop
  obtain ⟨rfl, -⟩ := Prod.mk.inj heq
  have hpurge : Issues db { db with
      servicePairings := db.servicePairings.filter fun p => ¬ p.expiresAt < now } := by
    apply issues_pairings hn
    · exact (hn .pairingCode).sublist (List.filter_sublist.map _)
    · exact fun p hp _ => (List.mem_filter.1 hp).1
  apply hpurge.trans
  apply issues_insertServicePairing hpurge.ids hinsert
  exact (hpurge.administers _ _).trans hadmin

theorem issues_claimServiceToken {code serviceName ip : String} {draw : Draw} {now : Int}
    (h : claimServiceToken code serviceName ip draw now db = .ok db') : Issues db db' := by
  simp only [claimServiceToken, guard_error_eq_ok] at h
  obtain ⟨-, h⟩ := h
  split at h
  · cases h
  simp only [map_eq_ok] at h
  obtain ⟨db₂, hinsert, rfl⟩ := h
  have hconsume : ∀ p : ServicePairing, Issues db { db with
      servicePairings := Table.updateWhere (fun q => q.id = p.id && q.consumedAt.isNone)
        (fun q => { q with consumedAt := some now }) db.servicePairings } := by
    intro p
    apply issues_pairings hn
    · exact Table.nodup_updateWhere (hn .pairingCode) fun _ => rfl
    · intro q hq hlive
      obtain ⟨q₀, hq₀, rfl⟩ := Table.mem_updateWhere.1 hq
      split at hlive <;> rename_i hsel
      · simp [ServicePairing.live] at hlive
      · rwa [if_neg hsel]
  have hminted := (hconsume _).trans
    (issues_insertServiceToken (hconsume _).ids hinsert fun hlive => by simp [ServiceToken.live] at hlive)
  exact hminted.trans (issues_log hminted.ids _)

end

end Issues

end KyYard.Accounts

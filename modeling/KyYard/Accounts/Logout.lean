import KyYard.Accounts.SignIn

/-!
# Logouts at a provider

A back-channel logout ends what a provider signed in: the sessions of one login (`EndSSOSession`), or
of one identity up to a cutoff (`EndSSOSubject`). Both write a fence, then delete, each statement on
its own; `CreateSession` commits the session, then looks for a fence and takes the session back if
there is one. So whichever of the two commits first is seen by the other, and a logout holds until
its fence runs out (`logout_is_final`), in every interleaving of the statements.

It holds as long as no fence that stands is weakened. One row serves all logouts of a login, and the
last one to write it decides how long it stands, even if it was called first; one row serves all
logouts of an identity, and it keeps the time of the first one at its cutoff
(`logout_forgotten`).
-/

namespace KyYard.Accounts.Logout

open Foundation

/-! ## Statements -/

/-- A row of `sso_logouts`. -/
structure SSOLogout where
  provider : String
  sid : String
  expiresAt : Int
deriving DecidableEq

def SSOLogout.key (f : SSOLogout) : String × String := (f.provider, f.sid)

/-- A row of `sso_subject_logouts`. -/
structure SSOSubjectLogout where
  provider : String
  subject : String
  cutoff : Int
  expiresAt : Int
deriving DecidableEq

def SSOSubjectLogout.key (f : SSOSubjectLogout) : String × String := (f.provider, f.subject)

/-- The database with the provider logouts. -/
structure Store where
  db : Db
  logouts : List SSOLogout
  subjectLogouts : List SSOSubjectLogout

/-- A call of `EndSSOSession` or of `EndSSOSubject`. -/
inductive Call
  | endSSOSession (provider sid : String) (fenceUntil : Int)
  | endSSOSubject (provider subject : String) (cutoff fenceUntil : Int)
deriving DecidableEq

/-- The statements of a call, in order. -/
inductive Stage
  | purge
  | fence
  | challenges
  | sessions
deriving DecidableEq

/-- The statement after this one. -/
def Stage.next : Stage → Option Stage
  | purge => some fence
  | fence => some challenges
  | challenges => some sessions
  | sessions => none

/-- The identity signs in to the account. -/
def linked (db : Db) (provider subject userID : String) : Bool :=
  db.identities.any fun i => i.provider = provider && i.subject = subject && i.userID = userID

namespace Call

def fenceUntil : Call → Int
  | endSSOSession _ _ fenceUntil => fenceUntil
  | endSSOSubject _ _ _ fenceUntil => fenceUntil

/-- `DELETE … WHERE expires_at <= now`. -/
def purge (now : Int) (st : Store) : Call → Store
  | endSSOSession _ _ _ => { st with logouts := st.logouts.filter fun f => ¬ f.expiresAt ≤ now }
  | endSSOSubject _ _ _ _ =>
    { st with subjectLogouts := st.subjectLogouts.filter fun f => ¬ f.expiresAt ≤ now }

/-- `INSERT … ON CONFLICT DO UPDATE`: a login's fence is overwritten, an identity's only by a higher
cutoff. -/
def putFence (st : Store) : Call → Store
  | endSSOSession provider sid fenceUntil =>
    { st with
      logouts := Table.upsert SSOLogout.key (fun _ _ => true) st.logouts
        ⟨provider, sid, fenceUntil⟩ }
  | endSSOSubject provider subject cutoff fenceUntil =>
    { st with
      subjectLogouts := Table.upsert SSOSubjectLogout.key (fun old new => old.cutoff < new.cutoff)
        st.subjectLogouts ⟨provider, subject, cutoff, fenceUntil⟩ }

/-- The pending second factors the call ends; one with no date is older than any cutoff. -/
def endsChallenge (db : Db) (c : MFAChallenge) : Call → Bool
  | endSSOSession provider sid _ => c.ssoProvider = provider && c.ssoSID = sid
  | endSSOSubject provider subject cutoff _ =>
    c.ssoProvider = provider && c.ssoIssuedAt.all (· < cutoff) && linked db provider subject c.userID

/-- The sessions the call deletes. -/
def endsSession (db : Db) (s : Session) : Call → Bool
  | endSSOSession provider sid _ => s.ssoProvider = provider && s.ssoSID = sid
  | endSSOSubject provider subject cutoff _ =>
    s.ssoProvider = provider && s.createdAt < cutoff && linked db provider subject s.userID

/-- One statement of a call. -/
def statement (call : Call) (now : Int) (st : Store) : Stage → Store
  | .purge => call.purge now st
  | .fence => call.putFence st
  | .challenges => { st with db := { st.db with
      challenges := st.db.challenges.filter fun c => ¬ call.endsChallenge st.db c } }
  | .sessions => { st with db := { st.db with
      sessions := st.db.sessions.filter fun s => ¬ call.endsSession st.db s } }

/-- What `handleBackchannelLogout` calls: a configured provider, and a login that is named. -/
def valid : Call → Bool
  | endSSOSession provider sid _ => providerID provider && sid ≠ ""
  | endSSOSubject provider _ _ _ => providerID provider

end Call

/-- The query of `CreateSession` after its commit. -/
def fenced (s : Session) (now : Int) (st : Store) : Bool :=
  (st.logouts.any fun f =>
      f.provider = s.ssoProvider && f.sid = s.ssoSID && f.sid ≠ "" && now < f.expiresAt) ||
    st.subjectLogouts.any fun f =>
      f.provider = s.ssoProvider && s.createdAt < f.cutoff && now < f.expiresAt &&
        linked st.db f.provider f.subject s.userID

/-! ## Interleavings -/

/-- A call between two of its statements. -/
inductive Flight
  | ending (call : Call) (stage : Stage)
  /-- The session is committed and its fences are not looked up yet. -/
  | created (s : Session)
  /-- A fence was found and the session is to be deleted. -/
  | refused (s : Session)
deriving DecidableEq

/-- The store, the clock and the calls in flight, with what happened: the sessions that were created,
each with the subject that proved it, the tokens of those reported as created, and the logouts that
returned. -/
structure World where
  store : Store
  clock : Int
  flights : List Flight
  issued : List (Session × String)
  reported : List String
  ended : List Call

/-- One statement. `now` is what the clock showed when its call last read it. -/
inductive Op
  | tick (t : Int)
  | provision (user : User)
  | challenge (c : MFAChallenge) (hash : String)
  | consume (tokenHash : String)
  | create (s : Session) (subject hash : String)
  | check (s : Session) (now : Int)
  | drop (s : Session)
  | logout (call : Call)
  | statement (call : Call) (stage : Stage) (now : Int)

namespace World

variable (w : World)

def setDb (db : Db) : World := { w with store := { w.store with db := db } }

/-- A session that was just committed; a local one is reported at once. -/
def commit (s : Session) (subject : String) (db : Db) : World :=
  let w := { w.setDb db with issued := w.issued ++ [(s, subject)] }
  if s.ssoProvider = "" then { w with reported := w.reported ++ [s.tokenHash] }
  else { w with flights := .created s :: w.flights }

/-- What becomes of a committed session once its fences are looked up. -/
def settle (s : Session) (now : Int) : World :=
  let rest := w.flights.erase (.created s)
  if fenced s now w.store then { w with flights := .refused s :: rest }
  else { w with flights := rest, reported := w.reported ++ [s.tokenHash] }

/-- A statement of a call, which returns after its last one. -/
def perform (call : Call) (stage : Stage) (now : Int) : World :=
  let rest := w.flights.erase (.ending call stage)
  let w := { w with store := call.statement now w.store stage }
  match stage.next with
  | some stage => { w with flights := .ending call stage :: rest }
  | none => { w with flights := rest, ended := w.ended ++ [call] }

end World

def step (b : Backend) : Op → World → Except Err World
  | .tick t, w => if w.clock ≤ t then .ok { w with clock := t } else .error .invalid
  | .provision user, w => (w.store.db.createUser b user).map w.setDb
  | .challenge c hash, w => (createMFAChallenge c hash w.store.db).map w.setDb
  | .consume tokenHash, w => (consumeMFAChallenge tokenHash w.clock w.store.db).map fun x => w.setDb x.2
  | .create s subject hash, w =>
    if ¬ (s.ssoProvider = "" ∨ providerID s.ssoProvider) then .error .invalid
    else (createSession s subject hash w.store.db).map (w.commit s subject)
  | .check s now, w =>
    if .created s ∈ w.flights ∧ now ≤ w.clock then .ok (w.settle s now) else .error .notFound
  | .drop s, w =>
    if .refused s ∈ w.flights then
      .ok { w.setDb (deleteSession s.tokenHash w.store.db) with
        flights := w.flights.erase (.refused s) }
    else .error .notFound
  | .logout call, w =>
    if call.valid then .ok { w with flights := .ending call .purge :: w.flights }
    else .error .invalid
  | .statement call stage now, w =>
    if .ending call stage ∈ w.flights ∧ now ≤ w.clock then .ok (w.perform call stage now)
    else .error .notFound

/-- Any order of operations. -/
def machine (b : Backend) : Machine World Op Err := ⟨step b⟩

/-- A session's token is none there has been: it is drawn from 32 random bytes. -/
def fresh (w : World) : Op → Prop
  | .create s _ _ => s.tokenHash ∉ w.issued.map (·.1.tokenHash)
  | _ => True

instance (w : World) (op : Op) : Decidable (fresh w op) := by
  unfold fresh
  split <;> infer_instance

/-- The call weakens no fence that stands: its own stands longer where it overwrites one, and is
covered by the one it leaves. -/
def Call.strengthens (w : World) : Call → Prop
  | .endSSOSession provider sid fenceUntil => ∀ f ∈ w.store.logouts, f.key = (provider, sid) →
    f.expiresAt ≤ fenceUntil ∨ f.expiresAt ≤ w.clock
  | .endSSOSubject provider subject cutoff fenceUntil => ∀ f ∈ w.store.subjectLogouts,
    f.key = (provider, subject) →
      if f.cutoff < cutoff then f.expiresAt ≤ fenceUntil ∨ f.expiresAt ≤ w.clock
      else fenceUntil ≤ f.expiresAt

instance (w : World) (call : Call) : Decidable (call.strengthens w) := by
  unfold Call.strengthens
  split <;> infer_instance

/-- The condition under which a logout is final: every fence that is written strengthens. -/
def strengthens (w : World) : Op → Prop
  | .statement call .fence _ => call.strengthens w
  | _ => True

instance (w : World) (op : Op) : Decidable (strengthens w op) := by
  unfold strengthens
  split <;> infer_instance

/-- The sessions a logout is about: those of its login, or those its identity established before its
cutoff. -/
def Call.covers (issued : List (Session × String)) (s : Session) : Call → Prop
  | .endSSOSession provider sid _ => s.ssoProvider = provider ∧ s.ssoSID = sid
  | .endSSOSubject provider subject cutoff _ =>
    s.ssoProvider = provider ∧ (s, subject) ∈ issued ∧ s.createdAt < cutoff

/-- After a logout has returned, and until its own fence runs out, no session it is about that was
reported as created exists. -/
def Final (w : World) : Prop :=
  ∀ call ∈ w.ended, w.clock < call.fenceUntil → ∀ s ∈ w.store.db.sessions,
    call.covers w.issued s → s.tokenHash ∉ w.reported

/-- An account's own provider identity is registered like a linked one. -/
def Registered (db : Db) : Prop :=
  ∀ u ∈ db.users, u.ssoProvider ≠ "local" → u.ssoSubject ≠ "" →
    linked db u.ssoProvider u.ssoSubject u.id = true

/-- Accounts to begin with, before anyone signed in. -/
structure Begins (db : Db) : Prop where
  sessions : db.sessions = []
  registered : Registered db

/-- A server that starts. -/
def World.start (db : Db) (clock : Int) : World where
  store := ⟨db, [], []⟩
  clock := clock
  flights := []
  issued := []
  reported := []
  ended := []

/-! ## Identities -/

section Identities

variable {b : Backend} {db db' : Db} {provider subject userID : String}

theorem linked_iff : linked db provider subject userID = true ↔
    ∃ i ∈ db.identities, i.provider = provider ∧ i.subject = subject ∧ i.userID = userID := by
  simp [linked, and_assoc]

/-- The sessions are the same, an account is registered, and no identity is lost. -/
structure Enrolled (db db' : Db) : Prop where
  sessions : db'.sessions = db.sessions
  registered : Registered db → Registered db'
  linked : ∀ provider subject userID, linked db provider subject userID = true →
    Logout.linked db' provider subject userID = true

theorem insertSSOIdentity_eq_ok (h : db.insertSSOIdentity userID provider subject = .ok db') :
    db'.users = db.users ∧ db'.sessions = db.sessions ∧
      (∀ i ∈ db.identities, i ∈ db'.identities) ∧
        linked db' provider subject userID = true := by
  rw [linked_iff]
  unfold Db.insertSSOIdentity at h
  split at h
  · next i hfind =>
    rw [guard_error_eq_ok, not_not] at h
    obtain ⟨hid, h⟩ := h
    obtain rfl := Except.ok.inj h
    have hi := List.find?_some hfind
    simp only [Bool.and_eq_true, decide_eq_true_eq] at hi
    exact ⟨rfl, rfl, fun _ h => h, i, List.mem_of_find?_eq_some hfind, hi.1, hi.2, hid⟩
  · rw [guard_error_eq_ok] at h
    obtain rfl := Except.ok.inj h.2
    refine ⟨rfl, rfl, fun _ h => List.mem_append_left _ h, ⟨provider, subject, userID⟩, ?_, rfl,
      rfl, rfl⟩
    exact List.mem_append_right _ (List.mem_singleton_self _)

theorem linked_mono (h : ∀ i ∈ db.identities, i ∈ db'.identities)
    (hl : linked db provider subject userID = true) :
    linked db' provider subject userID = true := by
  obtain ⟨i, hi, hrow⟩ := linked_iff.1 hl
  exact linked_iff.2 ⟨i, h i hi, hrow⟩

theorem enrolled_createUser {user : User} (h : db.createUser b user = .ok db') :
    Enrolled db db' := by
  simp only [Db.createUser, guard_error_eq_ok] at h
  obtain ⟨-, -, h⟩ := h
  split at h
  · next hlocal =>
    obtain rfl := Except.ok.inj h
    refine ⟨rfl, ?_, fun _ _ _ hl => hl⟩
    intro hreg u hu hp hs
    rcases Table.mem_concat.1 hu with hold | hnew
    · exact hreg u hold hp hs
    · rw [hnew] at hp hs
      exact absurd hlocal (not_or.2 ⟨hp, hs⟩)
  · obtain ⟨husers, hsessions, hids, hnew⟩ := insertSSOIdentity_eq_ok h
    refine ⟨hsessions, ?_, fun _ _ _ => linked_mono hids⟩
    intro hreg u hu hp hs
    rw [husers] at hu
    rcases Table.mem_concat.1 hu with hold | hrow
    · exact linked_mono hids (hreg u hold hp hs)
    · rw [hrow]
      exact hnew

theorem linked_of_stillSignsIn (hreg : Registered db) (hp : provider ≠ "")
    (hlocal : provider ≠ "local") (h : stillSignsIn userID provider subject db = .ok ()) :
    linked db provider subject userID = true := by
  rw [stillSignsIn, if_neg hp, guard_error_eq_ok, guard_else_error_eq_ok] at h
  obtain ⟨hsubject, hsigns, -⟩ := h
  simp only [List.any_eq_true, Bool.and_eq_true, Bool.or_eq_true, decide_eq_true_eq] at hsigns
  obtain ⟨u, hu, hid, ⟨hown, hsub⟩ | ⟨i, hi, ⟨hiuser, hiprovider⟩, hisubject⟩⟩ := hsigns
  · have hlinked := hreg u hu (hown ▸ hlocal) (hsub ▸ hsubject)
    rwa [hown, hsub, hid] at hlinked
  · exact linked_iff.2 ⟨i, hi, hiprovider, hisubject, hiuser.trans hid⟩

end Identities

/-! ## Fences -/

/-- A fence as strong as the call's own is in its table. -/
def Call.Stands (st : Store) : Call → Prop
  | .endSSOSession provider sid fenceUntil =>
    ∃ f ∈ st.logouts, f.key = (provider, sid) ∧ fenceUntil ≤ f.expiresAt
  | .endSSOSubject provider subject cutoff fenceUntil =>
    ∃ f ∈ st.subjectLogouts, f.key = (provider, subject) ∧ cutoff ≤ f.cutoff ∧
      fenceUntil ≤ f.expiresAt

section Fences

variable {w : World} {call other : Call} {now : Int}

/-- A session a standing fence is about is found out. -/
theorem fenced_of_stands {st : Store} {s : Session} {issued : List (Session × String)}
    (hvalid : call.valid = true) (hstands : call.Stands st) (hnow : now < call.fenceUntil)
    (hcovers : call.covers issued s)
    (hlinked : ∀ subject, (s, subject) ∈ issued → s.ssoProvider ≠ "" →
      linked st.db s.ssoProvider subject s.userID = true) : fenced s now st = true := by
  simp only [fenced, Bool.or_eq_true, List.any_eq_true, Bool.and_eq_true, decide_eq_true_eq]
  cases call with
  | endSSOSession =>
    obtain ⟨f, hf, hkey, huntil⟩ := hstands
    obtain ⟨hprovider, hsid⟩ := hcovers
    obtain ⟨hfp, hfs⟩ := Prod.mk.inj hkey
    simp only [Call.valid, Bool.and_eq_true, decide_eq_true_eq] at hvalid
    left
    exact ⟨f, hf, ⟨⟨hfp.trans hprovider.symm, hfs.trans hsid.symm⟩, hfs ▸ hvalid.2⟩,
      hnow.trans_le huntil⟩
  | endSSOSubject _ subject =>
    obtain ⟨f, hf, hkey, hcutoff, huntil⟩ := hstands
    obtain ⟨hprovider, hissued, hdate⟩ := hcovers
    obtain ⟨hfp, hfs⟩ := Prod.mk.inj hkey
    have hne : s.ssoProvider ≠ "" := by
      rintro hempty
      simp only [Call.valid, ← hprovider, hempty] at hvalid
      revert hvalid
      decide
    right
    refine ⟨f, hf, ⟨⟨hfp.trans hprovider.symm, hdate.trans_le hcutoff⟩, hnow.trans_le huntil⟩, ?_⟩
    rw [hfp, hfs, ← hprovider]
    exact hlinked subject hissued hne

theorem stands_purge (hnow : now ≤ w.clock) (hclock : w.clock < other.fenceUntil)
    (h : other.Stands w.store) : other.Stands (call.purge now w.store) := by
  have hkept : ∀ {e : Int}, other.fenceUntil ≤ e → ¬ e ≤ now := fun he hle =>
    absurd (hclock.trans_le (he.trans hle)) (not_lt.2 hnow)
  cases other with
  | endSSOSession =>
    obtain ⟨f, hf, hkey, huntil⟩ := h
    cases call with
    | endSSOSession =>
      exact ⟨f, List.mem_filter.2 ⟨hf, decide_eq_true (hkept huntil)⟩, hkey, huntil⟩
    | endSSOSubject => exact ⟨f, hf, hkey, huntil⟩
  | endSSOSubject =>
    obtain ⟨f, hf, hkey, hcutoff, huntil⟩ := h
    cases call with
    | endSSOSession => exact ⟨f, hf, hkey, hcutoff, huntil⟩
    | endSSOSubject =>
      exact ⟨f, List.mem_filter.2 ⟨hf, decide_eq_true (hkept huntil)⟩, hkey, hcutoff, huntil⟩

/-- A fence that is written stands. -/
theorem stands_putFence_self (hs : call.strengthens w) : call.Stands (call.putFence w.store) := by
  cases call with
  | endSSOSession provider sid fenceUntil =>
    rcases Table.mem_upsert_or SSOLogout.key (fun _ _ => true) w.store.logouts
      ⟨provider, sid, fenceUntil⟩ with hmem | ⟨_, _, _, hland, _⟩
    · exact ⟨_, hmem, rfl, le_refl _⟩
    · cases hland
  | endSSOSubject provider subject cutoff fenceUntil =>
    rcases Table.mem_upsert_or SSOSubjectLogout.key (fun old new => old.cutoff < new.cutoff)
      w.store.subjectLogouts ⟨provider, subject, cutoff, fenceUntil⟩ with
      hmem | ⟨f, hf, hkey, hland, hmem⟩
    · exact ⟨_, hmem, rfl, le_refl _, le_refl _⟩
    · have hcutoff : ¬ f.cutoff < cutoff := of_decide_eq_false hland
      have huntil := hs f hf hkey
      rw [if_neg hcutoff] at huntil
      exact ⟨f, hmem, hkey, not_lt.1 hcutoff, huntil⟩

/-- A fence that stands is replaced by a stronger one only. -/
theorem stands_putFence (hs : call.strengthens w) (hclock : w.clock < other.fenceUntil)
    (h : other.Stands w.store) : other.Stands (call.putFence w.store) := by
  have hlive : ∀ {e until_ : Int}, other.fenceUntil ≤ e → e ≤ until_ ∨ e ≤ w.clock →
      other.fenceUntil ≤ until_ := by
    intro e until_ he hor
    rcases hor with hle | hle
    · exact he.trans hle
    · exact absurd (hclock.trans_le (he.trans hle)) (lt_irrefl _)
  cases other with
  | endSSOSession =>
    obtain ⟨f, hf, hkey, huntil⟩ := h
    cases call with
    | endSSOSession provider' sid' until_ =>
      have hmem := Table.mem_upsert_of_mem SSOLogout.key (fun _ _ => true) hf
        (⟨provider', sid', until_⟩ : SSOLogout)
      split at hmem
      · next hland =>
        exact ⟨_, hmem, hland.1.symm.trans hkey, hlive huntil (hs f hf hland.1)⟩
      · exact ⟨f, hmem, hkey, huntil⟩
    | endSSOSubject => exact ⟨f, hf, hkey, huntil⟩
  | endSSOSubject _ _ cutoff =>
    obtain ⟨f, hf, hkey, hcutoff, huntil⟩ := h
    cases call with
    | endSSOSession => exact ⟨f, hf, hkey, hcutoff, huntil⟩
    | endSSOSubject provider' subject' cutoff' until_ =>
      have hmem := Table.mem_upsert_of_mem SSOSubjectLogout.key
        (fun old new => old.cutoff < new.cutoff) hf
        (⟨provider', subject', cutoff', until_⟩ : SSOSubjectLogout)
      split at hmem
      · next hland =>
        have hless : f.cutoff < cutoff' := of_decide_eq_true hland.2
        have hlonger := hs f hf hland.1
        rw [if_pos hless] at hlonger
        exact ⟨_, hmem, hland.1.symm.trans hkey, hcutoff.trans hless.le, hlive huntil hlonger⟩
      · exact ⟨f, hmem, hkey, hcutoff, huntil⟩

end Fences

/-! ## Every interleaving -/

/-- The call has written its fence. -/
def Fencing (w : World) (call : Call) : Prop :=
  call ∈ w.ended ∨ .ending call .challenges ∈ w.flights ∨ .ending call .sessions ∈ w.flights

/-- The invariant. -/
structure Inv (w : World) : Prop where
  registered : Registered w.store.db
  tokens : (w.issued.map (·.1.tokenHash)).Nodup
  sessions : ∀ s ∈ w.store.db.sessions, ∃ subject, (s, subject) ∈ w.issued
  reported : ∀ t ∈ w.reported, t ∈ w.issued.map (·.1.tokenHash)
  linked : ∀ s subject, (s, subject) ∈ w.issued → s.ssoProvider ≠ "" →
    linked w.store.db s.ssoProvider subject s.userID = true
  created : ∀ s, .created s ∈ w.flights → ∃ subject, (s, subject) ∈ w.issued
  valid : ∀ call, (∃ stage, .ending call stage ∈ w.flights) ∨ call ∈ w.ended → call.valid = true
  stands : ∀ call, Fencing w call → w.clock < call.fenceUntil → call.Stands w.store
  final : Final w

section Steps

variable {b : Backend} {w : World}

/-- Accounts and challenges change, and sessions do not. -/
theorem Inv.setDb {db : Db} (hI : Inv w) (h : Enrolled w.store.db db) : Inv (w.setDb db) where
  registered := h.registered hI.registered
  tokens := hI.tokens
  sessions s hs := hI.sessions s (h.sessions ▸ hs)
  reported := hI.reported
  linked s subject hs hne := h.linked _ _ _ (hI.linked s subject hs hne)
  created := hI.created
  valid := hI.valid
  stands call hf hclock := by
    have hstands := hI.stands call hf hclock
    cases call <;> exact hstands
  final call hcall hclock s hs hcovers := hI.final call hcall hclock s (h.sessions ▸ hs) hcovers

variable {s : Session} {subject : String}

section

variable (hI : Inv w)
include hI

theorem Inv.tick {t : Int} (ht : w.clock ≤ t) : Inv { w with clock := t } where
  registered := hI.registered
  tokens := hI.tokens
  sessions := hI.sessions
  reported := hI.reported
  linked := hI.linked
  created := hI.created
  valid := hI.valid
  stands call hf hclock := hI.stands call hf (ht.trans_lt hclock)
  final call hcall hclock := hI.final call hcall (ht.trans_lt hclock)

/-- Other requests are in flight: a committed session is still one that was issued, a logout is a
valid one, and one past its fence has a fence that stands. -/
theorem Inv.setFlights {fl : List Flight}
    (hcreated : ∀ s, .created s ∈ fl → ∃ subject, (s, subject) ∈ w.issued)
    (hvalid : ∀ call stage, .ending call stage ∈ fl → call.valid = true)
    (hstands : ∀ call, .ending call .challenges ∈ fl ∨ .ending call .sessions ∈ fl →
      w.clock < call.fenceUntil → call.Stands w.store) : Inv { w with flights := fl } where
  registered := hI.registered
  tokens := hI.tokens
  sessions := hI.sessions
  reported := hI.reported
  linked := hI.linked
  created := hcreated
  valid call h := by
    rcases h with ⟨stage, hf⟩ | hcall
    · exact hvalid call stage hf
    · exact hI.valid call (.inr hcall)
  stands call hf := by
    rcases hf with hcall | hf
    · exact hI.stands call (.inl hcall)
    · exact hstands call hf
  final := hI.final

/-- One more request is in flight. -/
theorem Inv.consFlight {f : Flight} {rest : List Flight} (hrest : ∀ g ∈ rest, g ∈ w.flights)
    (hcreated : ∀ s, f = .created s → ∃ subject, (s, subject) ∈ w.issued)
    (hvalid : ∀ call stage, f = .ending call stage → call.valid = true)
    (hstands : ∀ call, f = .ending call .challenges ∨ f = .ending call .sessions →
      w.clock < call.fenceUntil → call.Stands w.store) : Inv { w with flights := f :: rest } := by
  apply hI.setFlights
  · intro s hs
    rcases List.mem_cons.1 hs with heq | hmem
    · exact hcreated s heq.symm
    · exact hI.created s (hrest _ hmem)
  · intro call stage hf
    rcases List.mem_cons.1 hf with heq | hmem
    · exact hvalid call stage heq.symm
    · exact hI.valid call (.inl ⟨stage, hrest _ hmem⟩)
  · rintro call (hf | hf)
    · rcases List.mem_cons.1 hf with heq | hmem
      · exact hstands call (.inl heq.symm)
      · exact hI.stands call (.inr (.inl (hrest _ hmem)))
    · rcases List.mem_cons.1 hf with heq | hmem
      · exact hstands call (.inr heq.symm)
      · exact hI.stands call (.inr (.inr (hrest _ hmem)))

theorem Inv.landed {rest : List Flight} (hrest : ∀ g ∈ rest, g ∈ w.flights) :
    Inv { w with flights := rest } :=
  hI.setFlights (fun s hs => hI.created s (hrest _ hs))
    (fun call stage hf => hI.valid call (.inl ⟨stage, hrest _ hf⟩))
    fun call hf => hI.stands call (.inr (hf.imp (hrest _) (hrest _)))

/-- A session is reported that no logout covers. -/
theorem Inv.report (hs : (s, subject) ∈ w.issued)
    (hfree : ∀ call ∈ w.ended, w.clock < call.fenceUntil → ¬ call.covers w.issued s) :
    Inv { w with reported := w.reported ++ [s.tokenHash] } where
  registered := hI.registered
  tokens := hI.tokens
  sessions := hI.sessions
  reported t ht := by
    rcases Table.mem_concat.1 ht with hold | hnew
    · exact hI.reported t hold
    · rw [hnew]
      exact List.mem_map.2 ⟨_, hs, rfl⟩
  linked := hI.linked
  created := hI.created
  valid := hI.valid
  stands := hI.stands
  final call hcall hclock s' hs' hcovers hrep := by
    rcases Table.mem_concat.1 hrep with hold | hnew
    · exact hI.final call hcall hclock s' hs' hcovers hold
    · obtain ⟨subject', hissued⟩ := hI.sessions s' hs'
      -- the token names one session
      obtain rfl := congrArg Prod.fst (List.inj_on_of_nodup_map hI.tokens hissued hs hnew)
      exact hfree call hcall hclock hcovers

/-- A new session is not reported yet, so no logout minds it. -/
theorem Inv.issue (hfresh : s.tokenHash ∉ w.issued.map (·.1.tokenHash))
    (hlinked : s.ssoProvider ≠ "" →
      Logout.linked w.store.db s.ssoProvider subject s.userID = true) :
    Inv { w.setDb { w.store.db with sessions := w.store.db.sessions ++ [s] } with
      issued := w.issued ++ [(s, subject)] } where
  registered := hI.registered
  tokens := by
    refine Table.nodup_concat hI.tokens fun x hx htoken => hfresh ?_
    exact List.mem_map.2 ⟨x, hx, htoken⟩
  sessions x hx := by
    rcases Table.mem_concat.1 hx with hold | hnew
    · obtain ⟨sub, hsub⟩ := hI.sessions x hold
      exact ⟨sub, List.mem_append_left _ hsub⟩
    · rw [hnew]
      exact ⟨subject, List.mem_append_right _ (List.mem_singleton_self _)⟩
  reported t ht := by
    rw [List.map_append]
    exact List.mem_append_left _ (hI.reported t ht)
  linked x sub hx hne := by
    rcases Table.mem_concat.1 hx with hold | hnew
    · exact hI.linked x sub hold hne
    · obtain ⟨rfl, rfl⟩ := Prod.mk.inj (hnew)
      exact hlinked hne
  created x hx := by
    obtain ⟨sub, hsub⟩ := hI.created x hx
    exact ⟨sub, List.mem_append_left _ hsub⟩
  valid := hI.valid
  stands call hf hclock := by
    have hstands := hI.stands call hf hclock
    cases call <;> exact hstands
  final call hcall hclock x hx hcovers hrep := by
    -- the token is on the list of reported ones, so the session is an earlier one
    have hne : x ≠ s := by
      rintro rfl
      exact hfresh (hI.reported _ hrep)
    have hold : x ∈ w.store.db.sessions :=
      (List.mem_append.1 hx).resolve_right fun h => hne (List.mem_singleton.1 h)
    refine hI.final call hcall hclock x hold ?_ hrep
    cases call with
    | endSSOSession => exact hcovers
    | endSSOSubject =>
      obtain ⟨hprovider, hmem, hdate⟩ := hcovers
      refine ⟨hprovider, (List.mem_append.1 hmem).resolve_right ?_, hdate⟩
      exact fun h => hne (Prod.mk.inj (List.mem_singleton.1 h)).1

/-- Sessions go. -/
theorem Inv.deleteSessions {q : Session → Bool} :
    Inv (w.setDb { w.store.db with sessions := w.store.db.sessions.filter q }) where
  registered := hI.registered
  tokens := hI.tokens
  sessions s hs := hI.sessions s (List.mem_of_mem_filter hs)
  reported := hI.reported
  linked := hI.linked
  created := hI.created
  valid := hI.valid
  stands call hf hclock := by
    have hstands := hI.stands call hf hclock
    cases call <;> exact hstands
  final call hcall hclock s hs := hI.final call hcall hclock s (List.mem_of_mem_filter hs)

end

/-- A local session is no logout's. -/
theorem not_covers_local {call : Call} {issued : List (Session × String)}
    (hvalid : call.valid = true) (hempty : s.ssoProvider = "") : ¬ call.covers issued s := by
  have hprovider : providerID "" = false := by decide
  intro hcovers
  cases call with
  | endSSOSession _ _ _ | endSSOSubject _ _ _ _ =>
    rw [← hcovers.1, hempty] at hvalid
    cases hvalid

section

variable (hI : Inv w)
include hI

theorem Inv.commit (hfresh : s.tokenHash ∉ w.issued.map (·.1.tokenHash))
    (hlinked : s.ssoProvider ≠ "" →
      Logout.linked w.store.db s.ssoProvider subject s.userID = true) :
    Inv (w.commit s subject { w.store.db with sessions := w.store.db.sessions ++ [s] }) := by
  have hissued := hI.issue hfresh hlinked
  have hmem : (s, subject) ∈ w.issued ++ [(s, subject)] :=
    List.mem_append_right _ (List.mem_singleton_self _)
  unfold World.commit
  by_cases hempty : s.ssoProvider = ""
  · rw [if_pos hempty]
    refine hissued.report hmem ?_
    exact fun call hcall _ => not_covers_local (hI.valid call (.inr hcall)) hempty
  · rw [if_neg hempty]
    refine hissued.consFlight (fun _ h => h) ?_ nofun ?_
    · intro x hx
      obtain rfl := Flight.created.inj hx
      exact ⟨subject, hmem⟩
    · rintro call (h | h) <;> cases h

theorem Inv.settle {now : Int} (hs : .created s ∈ w.flights)
    (hnow : now ≤ w.clock) : Inv (w.settle s now) := by
  have hrest : ∀ g ∈ w.flights.erase (.created s), g ∈ w.flights := fun _ => List.mem_of_mem_erase
  unfold World.settle
  by_cases hfenced : fenced s now w.store = true
  · rw [if_pos hfenced]
    refine hI.consFlight hrest nofun nofun ?_
    rintro call (h | h) <;> cases h
  · rw [if_neg hfenced]
    obtain ⟨subject, hissued⟩ := hI.created s hs
    refine (hI.landed hrest).report hissued ?_
    intro call hcall hclock hcovers
    -- a logout that has returned left a fence, and this session would have been found out
    apply hfenced
    exact fenced_of_stands (hI.valid call (.inr hcall)) (hI.stands call (.inl hcall) hclock)
      (hnow.trans_lt hclock) hcovers (hI.linked s)

/-- The fences change, and those that have to stand do. -/
theorem Inv.setFences {st : Store} (hdb : st.db = w.store.db)
    (hstands : ∀ call, Fencing w call → w.clock < call.fenceUntil → call.Stands st) :
    Inv { w with store := st } where
  registered := hdb ▸ hI.registered
  tokens := hI.tokens
  sessions s hs := hI.sessions s (hdb ▸ hs)
  reported := hI.reported
  linked s subject hs hne := by
    have h := hI.linked s subject hs hne
    rwa [← hdb] at h
  created := hI.created
  valid := hI.valid
  stands := hstands
  final call hcall hclock s hs := hI.final call hcall hclock s (hdb ▸ hs)

/-- A logout returns: it has its fence, and what it is about is gone. -/
theorem Inv.return_ {call : Call} (hvalid : call.valid = true) (hfencing : Fencing w call)
    (hgone : ∀ s ∈ w.store.db.sessions, call.covers w.issued s → s.tokenHash ∉ w.reported) :
    Inv { w with ended := w.ended ++ [call] } where
  registered := hI.registered
  tokens := hI.tokens
  sessions := hI.sessions
  reported := hI.reported
  linked := hI.linked
  created := hI.created
  valid other h := by
    rcases h with hf | hcall
    · exact hI.valid other (.inl hf)
    · rcases Table.mem_concat.1 hcall with hold | hnew
      · exact hI.valid other (.inr hold)
      · exact hnew ▸ hvalid
  stands other hf hclock := by
    rcases hf with hcall | hf
    · rcases Table.mem_concat.1 hcall with hold | rfl
      · exact hI.stands other (.inl hold) hclock
      · exact hI.stands other hfencing hclock
    · exact hI.stands other (.inr hf) hclock
  final other hcall hclock := by
    rcases Table.mem_concat.1 hcall with hold | hnew
    · exact hI.final other hold hclock
    · rw [hnew]
      exact hgone

/-- The next statement of a logout is due. -/
theorem Inv.proceed {call : Call} {stage : Stage} {rest : List Flight}
    (hrest : ∀ g ∈ rest, g ∈ w.flights) (hvalid : call.valid = true)
    (hstands : w.clock < call.fenceUntil → call.Stands w.store) :
    Inv { w with flights := .ending call stage :: rest } := by
  refine hI.consFlight hrest nofun ?_ ?_
  · intro other stage' heq
    obtain ⟨rfl, -⟩ := Flight.ending.inj heq
    exact hvalid
  · rintro other (heq | heq)
    · obtain ⟨rfl, -⟩ := Flight.ending.inj heq
      exact hstands
    · obtain ⟨rfl, -⟩ := Flight.ending.inj heq
      exact hstands

/-- A session a logout is about is one its last statement deletes. -/
theorem Inv.endsSession {call : Call} (hvalid : call.valid = true)
    (hcovers : call.covers w.issued s) : call.endsSession w.store.db s = true := by
  have hne : s.ssoProvider ≠ "" := fun hempty => not_covers_local hvalid hempty hcovers
  cases call with
  | endSSOSession => simp [Call.endsSession, hcovers.1, hcovers.2]
  | endSSOSubject _ subject =>
    obtain ⟨hprovider, hissued, hdate⟩ := hcovers
    have hlinked := hI.linked s subject hissued hne
    rw [hprovider] at hlinked
    simp [Call.endsSession, hprovider, hdate, hlinked]

theorem Inv.perform {call : Call} {stage : Stage} {now : Int}
    (hflying : .ending call stage ∈ w.flights) (hnow : now ≤ w.clock)
    (hs : strengthens w (.statement call stage now)) : Inv (w.perform call stage now) := by
  have hrest : ∀ g ∈ w.flights.erase (.ending call stage), g ∈ w.flights :=
    fun _ => List.mem_of_mem_erase
  have hvalid : call.valid = true := hI.valid call (.inl ⟨stage, hflying⟩)
  cases stage with
  | purge =>
    have hpurged : Inv { w with store := call.purge now w.store } := by
      refine hI.setFences (by cases call <;> rfl) ?_
      intro other hf hclock
      exact stands_purge hnow hclock (hI.stands other hf hclock)
    -- the fence is not due yet
    refine hpurged.consFlight hrest nofun ?_ ?_
    · intro other stage heq
      obtain ⟨rfl, -⟩ := Flight.ending.inj heq
      exact hvalid
    · rintro other (h | h) <;> cases h
  | fence =>
    have hfenced : Inv { w with store := call.putFence w.store } := by
      refine hI.setFences (by cases call <;> rfl) ?_
      intro other hf hclock
      exact stands_putFence hs hclock (hI.stands other hf hclock)
    exact hfenced.proceed hrest hvalid fun _ => stands_putFence_self hs
  | challenges =>
    have hended : Inv (w.setDb { w.store.db with
        challenges := w.store.db.challenges.filter fun c => ¬ call.endsChallenge w.store.db c }) :=
      hI.setDb ⟨rfl, fun h => h, fun _ _ _ h => h⟩
    refine hended.proceed hrest hvalid fun hclock => ?_
    exact hended.stands call (.inr (.inl hflying)) hclock
  | sessions =>
    have hdeleted := hI.deleteSessions (q := fun s => ¬ call.endsSession w.store.db s)
    have hreturned := hdeleted.return_ hvalid (.inr (.inr hflying)) (by
      intro s hmem hcovers
      have hkept := (List.mem_filter.1 hmem).2
      simp only [decide_eq_true_eq] at hkept
      exact absurd (hI.endsSession hvalid hcovers) hkept)
    exact hreturned.landed hrest

/-- What one statement preserves. -/
theorem Inv.step {op : Op} {w' : World} (hfresh : fresh w op) (hs : strengthens w op)
    (h : step b op w = .ok w') : Inv w' := by
  cases op with
  | tick =>
    obtain ⟨ht, rfl⟩ := ok_of_guard h
    exact hI.tick ht
  | provision =>
    obtain ⟨db, hdb, rfl⟩ := map_eq_ok.1 h
    exact hI.setDb (enrolled_createUser hdb)
  | challenge =>
    obtain ⟨db, hdb, rfl⟩ := map_eq_ok.1 h
    obtain rfl := createMFAChallenge_eq_ok hdb
    exact hI.setDb ⟨rfl, fun h => h, fun _ _ _ h => h⟩
  | consume =>
    obtain ⟨⟨c, db⟩, hdb, rfl⟩ := map_eq_ok.1 h
    apply hI.setDb
    unfold consumeMFAChallenge at hdb
    split at hdb
    · cases hdb
    rw [guard_error_eq_ok] at hdb
    obtain ⟨rfl, rfl⟩ := Prod.mk.inj (Except.ok.inj hdb.2)
    exact ⟨rfl, fun h => h, fun _ _ _ h => h⟩
  | create =>
    simp only [Logout.step, guard_error_eq_ok, not_not] at h
    obtain ⟨hprovider, h⟩ := h
    obtain ⟨db, hdb, rfl⟩ := map_eq_ok.1 h
    obtain ⟨-, hsigns, rfl⟩ := createSession_eq_ok hdb
    apply hI.commit hfresh
    intro hne
    exact linked_of_stillSignsIn hI.registered hne
      (ne_local_of_providerID (hprovider.resolve_left hne)) hsigns
  | check =>
    obtain ⟨⟨hm, hc⟩, rfl⟩ := ok_of_guard h
    exact hI.settle hm hc
  | drop =>
    obtain ⟨-, rfl⟩ := ok_of_guard h
    exact hI.deleteSessions.landed fun _ => List.mem_of_mem_erase
  | logout =>
    obtain ⟨hcall, rfl⟩ := ok_of_guard h
    refine hI.consFlight (fun _ h => h) (by simp) ?_ ?_
    · intro other stage heq
      obtain ⟨rfl, -⟩ := Flight.ending.inj heq
      exact hcall
    · rintro other (heq | heq) <;> cases heq
  | statement =>
    obtain ⟨⟨hm, hc⟩, rfl⟩ := ok_of_guard h
    exact hI.perform hm hc hs

end

theorem inv_start {db : Db} (hdb : Begins db) (clock : Int) : Inv (World.start db clock) where
  registered := hdb.registered
  tokens := List.nodup_nil
  sessions s hs := by
    have hnil : s ∈ db.sessions := hs
    rw [hdb.sessions] at hnil
    cases hnil
  reported _ ht := absurd ht List.not_mem_nil
  linked _ _ hs := absurd hs List.not_mem_nil
  created _ hs := absurd hs List.not_mem_nil
  valid _ h := by
    rcases h with ⟨stage, hf⟩ | hcall
    · exact absurd hf List.not_mem_nil
    · exact absurd hcall List.not_mem_nil
  stands _ hf := by
    rcases hf with hcall | hf | hf
    · exact absurd hcall List.not_mem_nil
    · exact absurd hf List.not_mem_nil
    · exact absurd hf List.not_mem_nil
  final _ hcall := absurd hcall List.not_mem_nil

/-- A provider logout is final, statement by statement, in every run in which no fence that stands
is weakened. -/
theorem logout_is_final {db : Db} (hdb : Begins db) {clock : Int}
    (hrun : ((machine b).restrict fun w op => fresh w op ∧ strengthens w op).Steps
      (World.start db clock) w) : Final w := by
  have hI : Inv w := by
    refine Machine.restrict_keeps ?_ hrun (inv_start hdb clock)
    intro op w₁ w₂ hI hop hstep
    exact hI.step hop.1 hop.2 hstep
  exact hI.final

end Steps

/-! ## Fences that are weakened -/

/-- An account a provider signs in to. -/
def bob : User where
  id := "usr_2"
  username := "bob"
  email := ""
  displayName := "Bob"
  passwordHash := ""
  role := "user"
  status := "active"
  ssoProvider := "oidc"
  ssoSubject := "sub-1"
  totpSecretEnc := ""
  totpEnabled := false
  recoveryCodesHash := "[]"
  mustChangePassword := false

def bobDb : Db := { Db.empty with users := [bob], identities := [⟨"oidc", "sub-1", "usr_2"⟩] }

def bobBackend : Backend := ⟨.postgres, id⟩

def seconds (n : Int) : Int := n * 1000000000

/-- Bob's login at the provider, dated by its ID token. -/
def bobSession : Session := ⟨"token-1", "usr_2", 0, seconds 10000, "oidc", "sid-1"⟩

/-- A call of `handleBackchannelLogout` at `t`: its fence stands for ten minutes. -/
def ofLogin (t : Int) : Call := .endSSOSession "oidc" "sid-1" (seconds (t + 600))

def ofSubject (t : Int) : Call := .endSSOSubject "oidc" "sub-1" (seconds 1) (seconds (t + 600))

/-- The statements of a call, one after the other. -/
def statements (call : Call) (t : Int) : List Op :=
  [.statement call .purge (seconds t), .statement call .fence (seconds t),
    .statement call .challenges (seconds t), .statement call .sessions (seconds t)]

def signsIn (t : Int) : List Op :=
  [.tick (seconds t), .create bobSession "sub-1" "", .check bobSession (seconds t)]

/-- The first logout is overtaken by a second one and then writes over its fence. -/
def overtaken : List Op :=
  .logout (ofLogin 0) :: .tick (seconds 10) :: .logout (ofLogin 10) ::
    statements (ofLogin 10) 10 ++ statements (ofLogin 0) 10 ++ signsIn 605

/-- A second logout with the first one's cutoff does not prolong its fence. -/
def repeated : List Op :=
  .logout (ofSubject 0) :: statements (ofSubject 0) 0 ++
    (.tick (seconds 300) :: .logout (ofSubject 300) :: statements (ofSubject 300) 300) ++ signsIn 700

/-- A logout in the middle of a sign-in. -/
def midway : List Op :=
  [.create bobSession "sub-1" "", .logout (ofLogin 0)] ++ statements (ofLogin 0) 0 ++
    [.check bobSession 0, .drop bobSession]

theorem begins_bobDb : Begins bobDb := by
  refine ⟨rfl, ?_⟩
  intro u hu _ _
  obtain rfl := List.mem_singleton.1 hu
  decide

/-- Both fences that were to stand are passed: a session the logout is about exists and was reported
as created, before the logout's own fence has run out. -/
theorem logout_forgotten :
    Begins bobDb ∧
      ¬ Final (((machine bobBackend).restrict fresh).run overtaken (World.start bobDb 0)) ∧
      ¬ Final (((machine bobBackend).restrict fresh).run repeated (World.start bobDb 0)) := by
  refine ⟨begins_bobDb, ?_, ?_⟩
  · intro h
    refine h (ofLogin 10) (by decide +kernel) (by decide +kernel) bobSession (by decide +kernel) ?_
      (by decide +kernel)
    exact ⟨rfl, rfl⟩
  · intro h
    refine h (ofSubject 300) (by decide +kernel) (by decide +kernel) bobSession (by decide +kernel)
      ?_ (by decide +kernel)
    exact ⟨rfl, by decide +kernel, by decide⟩

theorem logout_is_final_midway :
    Begins bobDb ∧
      let w := ((machine bobBackend).restrict fun w op => fresh w op ∧ strengthens w op).run midway
        (World.start bobDb 0)
      w.ended = [ofLogin 0] ∧ w.issued.map (·.1) = [bobSession] ∧ w.flights = [] ∧ Final w := by
  refine ⟨begins_bobDb, by decide +kernel, by decide +kernel, by decide +kernel, ?_⟩
  exact logout_is_final begins_bobDb (Machine.steps_run _ _)

end KyYard.Accounts.Logout

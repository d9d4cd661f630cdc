import KyYard.Foundation.Machine
import Mathlib.Data.List.Basic

/-!
# The identity Secret

An agent in a cluster keeps its identity in a Secret and writes it against the Secret it last read or
wrote. Any number of agents load and save on one Secret. The API server applies a create only when
the Secret is absent and an update only at the resourceVersion it names, each in one step; an answer
may be lost, and a request whose sender gave up may still take effect later. An operator may delete
the Secret.

`secret_never_clobbered`: whatever a save replaces is undecodable, or an identity of the same endpoint
with no later generation; so while the Secret exists a decodable identity keeps its endpoint and its
generation does not go back.
-/

namespace KyYard.Kubernetes

open Foundation

/-! ## Identities -/

/-- The fields of a stored identity that the store reads, as JSON gives them. -/
structure IdentityFields where
  endpointID : String
  privateKey : List UInt8
  generation : Nat
deriving DecidableEq

def privateKeySize : Nat := 64

/-- An identity an agent holds. It enrolled with an endpoint id and a key it generated, or it decoded
the identity, which checks both. -/
structure Identity extends IdentityFields where
  named : endpointID ≠ ""
  keyed : privateKey.length = privateKeySize
deriving DecidableEq

/-- The JSON of an identity. -/
structure IdentityCodec (ρ : Type) where
  marshal : IdentityFields → ρ
  unmarshal : ρ → Option IdentityFields
  unmarshal_marshal : ∀ id, unmarshal (marshal id) = some id

variable {ρ : Type}

/-- The one reading of a stored identity. -/
def decodeIdentity (c : IdentityCodec ρ) (raw : ρ) : Option Identity :=
  match c.unmarshal raw with
  | none => none
  | some f =>
    if h : f.privateKey.length = privateKeySize ∧ f.endpointID ≠ "" then some ⟨f, h.2, h.1⟩ else none

theorem decodeIdentity_marshal (c : IdentityCodec ρ) (id : Identity) :
    decodeIdentity c (c.marshal id.toIdentityFields) = some id := by
  unfold decodeIdentity
  rw [c.unmarshal_marshal]
  exact dif_pos ⟨id.keyed, id.named⟩

/-! ## Secrets and their agents -/

/-- The Secret as the cluster holds it. -/
structure IdentitySecret (ρ : Type) where
  resourceVersion : Nat
  data : ρ
deriving DecidableEq

/-- The Secret as last seen holds another endpoint or a later generation. An undecodable one is
overwritten. -/
def overtakes (c : IdentityCodec ρ) (seen : Option (IdentitySecret ρ)) (id : Identity) : Bool :=
  match seen with
  | none => false
  | some sec =>
    match decodeIdentity c sec.data with
    | none => false
    | some prior => prior.endpointID != id.endpointID || decide (prior.generation > id.generation)

/-- A create where no Secret was seen, an update of the one that was. -/
structure SecretWrite (ρ : Type) where
  seen : Option (IdentitySecret ρ)
  id : Identity
deriving DecidableEq

/-- Where an agent stands: its lock is free, or a save waits for the answer to its first or second
write, or for the Secret it reads again in between. -/
inductive SaveTask (ρ : Type) where
  | idle
  | writing (w : SecretWrite ρ) (second : Bool)
  | rereading (id : Identity)
deriving DecidableEq

/-- One agent's view of its identity. -/
structure SecretIdentityStore (ρ : Type) where
  seen : Option (IdentitySecret ρ)
  task : SaveTask ρ
deriving DecidableEq

/-- What a write put into the Secret, and what was there. -/
structure Replaced (ρ : Type) where
  before : Option ρ
  id : Identity

/-- The cluster and the agents. -/
structure SecretWorld (ρ : Type) where
  stored : Option (IdentitySecret ρ)
  /-- The last resourceVersion the server gave out. -/
  version : Nat
  agents : Nat → SecretIdentityStore ρ
  /-- Writes whose sender has given up. -/
  late : List (SecretWrite ρ)
  /-- Every write that took effect. -/
  log : List (Replaced ρ)

namespace SecretWorld

/-- Agents that have just started, beside a Secret anyone may have made. -/
def start (stored : Option (IdentitySecret ρ)) : SecretWorld ρ where
  stored := stored
  version := (stored.map IdentitySecret.resourceVersion).getD 0
  agents := fun _ => ⟨none, .idle⟩
  late := []
  log := []

def set (s : SecretWorld ρ) (a : Nat) (st : SecretIdentityStore ρ) : SecretWorld ρ :=
  { s with agents := Function.update s.agents a st }

/-- How the server answers a write. -/
inductive WriteAnswer (ρ : Type) where
  | written (sec : IdentitySecret ρ)
  | conflict
  | notFound

/-- The server's side of a write. -/
def applyWrite (c : IdentityCodec ρ) (w : SecretWrite ρ) (s : SecretWorld ρ) :
    WriteAnswer ρ × SecretWorld ρ :=
  let sec : IdentitySecret ρ := ⟨s.version + 1, c.marshal w.id.toIdentityFields⟩
  let written := { s with stored := some sec, version := s.version + 1,
                          log := s.log ++ [⟨s.stored.map IdentitySecret.data, w.id⟩] }
  match w.seen, s.stored with
  | none, none => (.written sec, written)
  | none, some _ => (.conflict, s)
  | some _, none => (.notFound, s)
  | some seen, some cur =>
    if seen.resourceVersion = cur.resourceVersion then (.written sec, written) else (.conflict, s)

/-- The agent goes on with a write against the Secret it has seen, unless that overtakes it. -/
def attempt (c : IdentityCodec ρ) (seen : Option (IdentitySecret ρ)) (id : Identity)
    (second : Bool) : SecretIdentityStore ρ :=
  ⟨seen, if overtakes c seen id then .idle else .writing ⟨seen, id⟩ second⟩

/-- What an agent or somebody else does. -/
inductive Op where
  | load (a : Nat)
  | save (a : Nat) (id : Identity)
  | answer (a : Nat)
  | reread (a : Nat)
  | giveUp (a : Nat)
  | arrive (i : Nat)
  | delete
deriving DecidableEq

def step (c : IdentityCodec ρ) : Op → SecretWorld ρ → Except Unit (SecretWorld ρ)
  | .load a, s =>
    match (s.agents a).task with
    | .idle => .ok (s.set a ⟨s.stored, .idle⟩)
    | _ => .error ()
  | .save a id, s =>
    match (s.agents a).task with
    | .idle => .ok (s.set a (attempt c (s.agents a).seen id false))
    | _ => .error ()
  | .answer a, s =>
    match (s.agents a).task with
    | .writing w second =>
      let (answer, s) := applyWrite c w s
      .ok (s.set a (match answer with
        | .written sec => ⟨some sec, .idle⟩
        | .conflict => ⟨(s.agents a).seen, if second then .idle else .rereading w.id⟩
        | .notFound => ⟨(s.agents a).seen, .idle⟩))
    | _ => .error ()
  | .reread a, s =>
    match (s.agents a).task with
    | .rereading id => .ok (s.set a (attempt c s.stored id true))
    | _ => .error ()
  | .giveUp a, s =>
    match (s.agents a).task with
    | .idle => .error ()
    | .rereading _ => .ok (s.set a ⟨(s.agents a).seen, .idle⟩)
    | .writing w _ =>
      -- the write may still reach the server
      .ok { s.set a ⟨(s.agents a).seen, .idle⟩ with late := s.late ++ [w] }
  | .arrive i, s =>
    match s.late[i]? with
    | some w => .ok { (applyWrite c w s).2 with late := s.late.eraseIdx i }
    | none => .error ()
  | .delete, s => .ok { s with stored := none }

/-- The agents in any order. -/
def machine (c : IdentityCodec ρ) : Machine (SecretWorld ρ) Op Unit := ⟨step c⟩

/-! ## What an agent has seen -/

section Proofs

variable {c : IdentityCodec ρ} {s s' : SecretWorld ρ}

/-- The prior identity that a write may replace. -/
def Succeeds (prior id : Identity) : Prop :=
  prior.endpointID = id.endpointID ∧ prior.generation ≤ id.generation

theorem succeeds_of_overtakes {sec : IdentitySecret ρ} {id prior : Identity}
    (h : overtakes c (some sec) id = false) (hprior : decodeIdentity c sec.data = some prior) :
    Succeeds prior id := by
  simp only [overtakes, hprior, Bool.or_eq_false_iff, bne_eq_false_iff_eq, decide_eq_false_iff_not,
    Nat.not_lt] at h
  exact h

/-- A Secret seen at some time: at its resourceVersion the stored one holds the same data. -/
def Sighted (s : SecretWorld ρ) (seen : Option (IdentitySecret ρ)) : Prop :=
  ∀ sec, seen = some sec → sec.resourceVersion ≤ s.version ∧
    ∀ cur, s.stored = some cur → cur.resourceVersion = sec.resourceVersion → cur.data = sec.data

/-- A write against a Secret that was seen and did not overtake it. -/
def Fair (c : IdentityCodec ρ) (s : SecretWorld ρ) (w : SecretWrite ρ) : Prop :=
  Sighted s w.seen ∧ overtakes c w.seen w.id = false

/-- The server moved on: what it stores is what it stored, or is of a later resourceVersion. -/
def Later (s s' : SecretWorld ρ) : Prop :=
  s.version ≤ s'.version ∧
    ∀ cur, s'.stored = some cur → s.stored = some cur ∨ s.version < cur.resourceVersion

theorem Later.refl (s : SecretWorld ρ) : Later s s := ⟨Nat.le_refl _, fun _ h => .inl h⟩

theorem Sighted.later {seen : Option (IdentitySecret ρ)} (h : Sighted s seen) (hl : Later s s') :
    Sighted s' seen := by
  intro sec hsec
  obtain ⟨hle, hsame⟩ := h sec hsec
  refine ⟨Nat.le_trans hle hl.1, ?_⟩
  intro cur hcur hversion
  rcases hl.2 cur hcur with hold | hnew
  · exact hsame cur hold hversion
  · -- a resourceVersion that was given out later is none that was seen
    omega

theorem Fair.later {w : SecretWrite ρ} (h : Fair c s w) (hl : Later s s') : Fair c s' w :=
  ⟨h.1.later hl, h.2⟩

/-- What holds of every run: sightings are true, pending writes are fair, and so was every write
that took effect. -/
structure Inv (c : IdentityCodec ρ) (s : SecretWorld ρ) : Prop where
  stored : Sighted s s.stored
  seen : ∀ a, Sighted s (s.agents a).seen
  writing : ∀ a w second, (s.agents a).task = .writing w second → Fair c s w
  late : ∀ w ∈ s.late, Fair c s w
  log : ∀ r ∈ s.log, ∀ raw prior, r.before = some raw → decodeIdentity c raw = some prior →
    Succeeds prior r.id

theorem inv_start (stored : Option (IdentitySecret ρ)) : Inv c (start stored) := by
  refine ⟨?_, ?_, ?_, ?_, ?_⟩
  · intro sec hsec
    have hstored : stored = some sec := hsec
    refine ⟨by simp [start, hstored], ?_⟩
    intro cur hcur _
    rw [Option.some.inj (hcur.symm.trans hsec)]
  · intro a sec hsec
    cases hsec
  · intro a w second hw
    cases hw
  · intro w hw
    exact absurd hw List.not_mem_nil
  · intro r hr
    exact absurd hr List.not_mem_nil

/-- One agent's store is replaced by one whose sighting is true and whose write is fair. -/
theorem Inv.set (h : Inv c s) {a : Nat} {st : SecretIdentityStore ρ} (hseen : Sighted s st.seen)
    (hwriting : ∀ w second, st.task = .writing w second → Fair c s w) : Inv c (s.set a st) := by
  refine ⟨h.stored, ?_, ?_, h.late, h.log⟩
  · intro b
    show Sighted s (Function.update s.agents a st b).seen
    by_cases hb : b = a
    · rw [hb, Function.update_self]
      exact hseen
    · rw [Function.update_of_ne hb]
      exact h.seen b
  · intro b w second hw
    by_cases hb : b = a
    · rw [hb] at hw
      simp only [SecretWorld.set, Function.update_self] at hw
      exact hwriting w second hw
    · simp only [SecretWorld.set, Function.update_of_ne hb] at hw
      exact h.writing b w second hw

theorem attempt_fair {seen : Option (IdentitySecret ρ)} {id : Identity} {second : Bool}
    (hseen : Sighted s seen) (w : SecretWrite ρ) (b : Bool)
    (hw : (attempt c seen id second).task = .writing w b) : Fair c s w := by
  unfold attempt at hw
  split at hw
  · cases hw
  next hover =>
  cases hw
  exact ⟨hseen, Bool.eq_false_iff.2 hover⟩

/-- A write takes effect where the Secret is absent, or at the resourceVersion that was seen; or it
changes nothing. -/
theorem applyWrite_cases (w : SecretWrite ρ) (s : SecretWorld ρ) :
    (applyWrite c w s).2 = s ∧ (∀ sec, (applyWrite c w s).1 ≠ .written sec) ∨
      applyWrite c w s =
        (.written ⟨s.version + 1, c.marshal w.id.toIdentityFields⟩,
          { s with stored := some ⟨s.version + 1, c.marshal w.id.toIdentityFields⟩,
                   version := s.version + 1,
                   log := s.log ++ [⟨s.stored.map IdentitySecret.data, w.id⟩] }) ∧
        ∀ cur, s.stored = some cur →
          ∃ seen, w.seen = some seen ∧ cur.resourceVersion = seen.resourceVersion := by
  unfold applyWrite
  dsimp only
  cases hseen : w.seen with
  | none =>
    cases hstored : s.stored with
    | none => exact .inr ⟨rfl, nofun⟩
    | some => exact .inl ⟨rfl, nofun⟩
  | some seen =>
    cases hstored : s.stored with
    | none => exact .inl ⟨rfl, nofun⟩
    | some cur =>
      dsimp only
      by_cases hversion : seen.resourceVersion = cur.resourceVersion
      · rw [if_pos hversion]
        refine .inr ⟨rfl, ?_⟩
        intro cur' hcur'
        rw [← Option.some.inj hcur']
        exact ⟨seen, rfl, hversion.symm⟩
      · rw [if_neg hversion]
        exact .inl ⟨rfl, nofun⟩

/-- A fair write that takes effect replaces what it may, and every sighting stays true. -/
theorem Inv.applyWrite (h : Inv c s) {w : SecretWrite ρ} (hw : Fair c s w) :
    Inv c (applyWrite c w s).2 ∧ Later s (applyWrite c w s).2 ∧
      ∀ sec, (SecretWorld.applyWrite c w s).1 = .written sec →
        Sighted (SecretWorld.applyWrite c w s).2 (some sec) := by
  rcases applyWrite_cases w s with ⟨hsame, hnot⟩ | ⟨heq, hcur⟩
  · rw [hsame]
    exact ⟨h, Later.refl s, fun sec hsec => absurd hsec (hnot sec)⟩
  rw [heq]
  have hlater : Later s
      { s with stored := some ⟨s.version + 1, c.marshal w.id.toIdentityFields⟩,
               version := s.version + 1,
               log := s.log ++ [⟨s.stored.map IdentitySecret.data, w.id⟩] } := by
    refine ⟨Nat.le_succ _, ?_⟩
    intro cur hcur
    rw [← Option.some.inj hcur]
    exact .inr (Nat.lt_succ_self _)
  have hnew : ∀ t : SecretWorld ρ, t.version = s.version + 1 →
      t.stored = some ⟨s.version + 1, c.marshal w.id.toIdentityFields⟩ →
      Sighted t (some ⟨s.version + 1, c.marshal w.id.toIdentityFields⟩) := by
    intro t hversion hstored sec hsec
    rw [← Option.some.inj hsec]
    refine ⟨Nat.le_of_eq hversion.symm, ?_⟩
    intro cur hcur _
    rw [Option.some.inj (hcur.symm.trans hstored)]
  refine ⟨⟨hnew _ rfl rfl, fun a => (h.seen a).later hlater,
    fun a v second hv => (h.writing a v second hv).later hlater,
    fun v hv => (h.late v hv).later hlater, ?_⟩, hlater, ?_⟩
  · intro r hr raw prior hraw hprior
    rcases List.mem_append.1 hr with hr | hr
    · exact h.log r hr raw prior hraw hprior
    -- the write itself: it was checked against the data that it replaces
    rw [List.mem_singleton.1 hr] at hraw ⊢
    obtain ⟨cur, hstored, rfl⟩ := Option.map_eq_some_iff.1 hraw
    obtain ⟨seen, hseen, hversion⟩ := hcur cur hstored
    have hdata := (hw.1 seen hseen).2 cur hstored hversion
    rw [hdata] at hprior
    exact succeeds_of_overtakes (hseen ▸ hw.2) hprior
  · intro sec hsec
    cases hsec
    exact hnew _ rfl rfl

theorem Inv.step {op : Op} (h : Inv c s) (hstep : step c op s = .ok s') : Inv c s' := by
  cases op with
  | load =>
    simp only [SecretWorld.step] at hstep
    split at hstep
    · obtain rfl := Except.ok.inj hstep
      exact h.set h.stored nofun
    · cases hstep
  | save a =>
    simp only [SecretWorld.step] at hstep
    split at hstep
    · obtain rfl := Except.ok.inj hstep
      exact h.set (h.seen a) (attempt_fair (h.seen a))
    · cases hstep
  | answer a =>
    simp only [SecretWorld.step] at hstep
    split at hstep
    · next w second htask =>
      obtain rfl := Except.ok.inj hstep
      obtain ⟨hinv, hlater, hwritten⟩ := h.applyWrite (h.writing a w second htask)
      cases hanswer : (SecretWorld.applyWrite c w s).1 with
      | written sec => exact hinv.set (hwritten sec hanswer) nofun
      | conflict =>
        refine hinv.set (hinv.seen a) ?_
        intro v b hv
        cases second <;> cases hv
      | notFound => exact hinv.set (hinv.seen a) nofun
    · cases hstep
  | reread =>
    simp only [SecretWorld.step] at hstep
    split at hstep
    · obtain rfl := Except.ok.inj hstep
      exact h.set h.stored (attempt_fair h.stored)
    · cases hstep
  | giveUp a =>
    simp only [SecretWorld.step] at hstep
    split at hstep
    · cases hstep
    · obtain rfl := Except.ok.inj hstep
      exact h.set (h.seen a) nofun
    · next w second htask =>
      obtain rfl := Except.ok.inj hstep
      have hset : Inv c (s.set a ⟨(s.agents a).seen, .idle⟩) := h.set (h.seen a) nofun
      refine ⟨hset.stored, hset.seen, hset.writing, ?_, hset.log⟩
      intro v hv
      rcases List.mem_append.1 hv with hv | hv
      · exact h.late v hv
      · rw [List.mem_singleton.1 hv]
        exact h.writing a w second htask
  | arrive =>
    simp only [SecretWorld.step] at hstep
    split at hstep
    · next w hw =>
      obtain rfl := Except.ok.inj hstep
      obtain ⟨hinv, hlater, -⟩ := h.applyWrite (h.late w (List.mem_of_getElem? hw))
      refine ⟨hinv.stored, hinv.seen, hinv.writing, ?_, hinv.log⟩
      intro v hv
      exact (h.late v ((List.eraseIdx_sublist _ _).subset hv)).later hlater
    · cases hstep
  | delete =>
    obtain rfl := Except.ok.inj hstep
    have hlater : Later s { s with stored := none } := ⟨Nat.le_refl _, nofun⟩
    exact ⟨nofun, fun a => (h.seen a).later hlater,
      fun a w second hw => (h.writing a w second hw).later hlater,
      fun w hw => (h.late w hw).later hlater, h.log⟩

/-! ## While the Secret exists -/

/-- What is stored changes by a fair write or by a delete only. -/
theorem stored_of_step {op : Op} (h : Inv c s) (hop : op ≠ .delete) (hstep : step c op s = .ok s') :
    s'.stored = s.stored ∨ ∃ w, Fair c s w ∧ s'.stored = (applyWrite c w s).2.stored := by
  cases op with
  | load | save _ _ | reread =>
    simp only [SecretWorld.step] at hstep
    split at hstep
    · obtain rfl := Except.ok.inj hstep
      exact .inl rfl
    · cases hstep
  | answer a =>
    simp only [SecretWorld.step] at hstep
    split at hstep
    · next w second htask =>
      obtain rfl := Except.ok.inj hstep
      exact .inr ⟨w, h.writing a w second htask, rfl⟩
    · cases hstep
  | giveUp =>
    simp only [SecretWorld.step] at hstep
    split at hstep
    · cases hstep
    · obtain rfl := Except.ok.inj hstep
      exact .inl rfl
    · obtain rfl := Except.ok.inj hstep
      exact .inl rfl
  | arrive =>
    simp only [SecretWorld.step] at hstep
    split at hstep
    · next w hw =>
      obtain rfl := Except.ok.inj hstep
      exact .inr ⟨w, h.late w (List.mem_of_getElem? hw), rfl⟩
    · cases hstep
  | delete => exact absurd rfl hop

/-- The Secret holds an identity that may stand in the place of `prior`. -/
def Holds (c : IdentityCodec ρ) (prior : Identity) (s : SecretWorld ρ) : Prop :=
  ∃ sec id, s.stored = some sec ∧ decodeIdentity c sec.data = some id ∧ Succeeds prior id

theorem Holds.step {op : Op} {prior : Identity} (h : Inv c s) (hop : op ≠ .delete)
    (hstep : step c op s = .ok s') (hs : Holds c prior s) : Holds c prior s' := by
  obtain ⟨sec, id, hstored, hdecode, hsucceeds⟩ := hs
  rcases stored_of_step h hop hstep with hsame | ⟨w, hw, happly⟩
  · exact ⟨sec, id, hsame.trans hstored, hdecode, hsucceeds⟩
  rcases applyWrite_cases w s with ⟨hsame, -⟩ | ⟨heq, hcur⟩
  · rw [hsame] at happly
    exact ⟨sec, id, happly.trans hstored, hdecode, hsucceeds⟩
  rw [heq] at happly
  obtain ⟨seen, hseen, hversion⟩ := hcur sec hstored
  have hdata := (hw.1 seen hseen).2 sec hstored hversion
  rw [hdata] at hdecode
  have hnext : Succeeds id w.id := succeeds_of_overtakes (hseen ▸ hw.2) hdecode
  exact ⟨_, w.id, happly, decodeIdentity_marshal c w.id, hsucceeds.1.trans hnext.1,
    Nat.le_trans hsucceeds.2 hnext.2⟩

/-- Every write that took effect replaced nothing, or data that is no identity, or an identity of its
own endpoint with no later generation; and from any time on, while nobody deletes the Secret, the
identity in it keeps its endpoint and its generation does not go back. -/
theorem secret_never_clobbered (c : IdentityCodec ρ) (stored : Option (IdentitySecret ρ))
    (s : SecretWorld ρ) (h : (machine c).Steps (start stored) s) :
    (∀ r ∈ s.log, ∀ raw prior, r.before = some raw → decodeIdentity c raw = some prior →
      prior.endpointID = r.id.endpointID ∧ prior.generation ≤ r.id.generation) ∧
    ∀ s', ((machine c).restrict fun _ op => op ≠ .delete).Steps s s' →
      ∀ sec prior, s.stored = some sec → decodeIdentity c sec.data = some prior →
        ∃ sec' id, s'.stored = some sec' ∧ decodeIdentity c sec'.data = some id ∧
          prior.endpointID = id.endpointID ∧ prior.generation ≤ id.generation := by
  have hinv : Inv c s := h.keeps (fun op t t' ht hstep => ht.step hstep) (inv_start stored)
  refine ⟨hinv.log, ?_⟩
  intro s' hrun sec prior hstored hdecode
  -- the invariant and the identity go along the run together
  have hboth : Inv c s' ∧ Holds c prior s' := by
    refine Machine.restrict_keeps (I := fun t => Inv c t ∧ Holds c prior t) ?_ hrun
      ⟨hinv, sec, prior, hstored, hdecode, rfl, Nat.le_refl _⟩
    intro op t t' ht hop hstep
    exact ⟨ht.1.step hstep, ht.2.step ht.1 hop hstep⟩
  exact hboth.2

end Proofs

/-- An identity of an endpoint at a generation, with some key. -/
def sample (endpointID : String) (generation : Nat) (h : endpointID ≠ "") : Identity :=
  ⟨⟨endpointID, List.replicate privateKeySize 0, generation⟩, h, List.length_replicate⟩

/-- Fields that stand for their own JSON. -/
def plainCodec : IdentityCodec IdentityFields := ⟨id, some, fun _ => rfl⟩

/-- Two agents load generation 3. One saves 5; the other's save of 4 conflicts, reads 5 and stops. -/
theorem secret_never_clobbered_race :
    let before : IdentitySecret IdentityFields := ⟨7, (sample "a" 3 (by decide)).toIdentityFields⟩
    let s := (machine plainCodec).run [.load 0, .load 1] (start (some before))
    let s' := ((machine plainCodec).restrict fun _ op => op ≠ .delete).run
      [.save 0 (sample "a" 5 (by decide)), .save 1 (sample "a" 4 (by decide)), .answer 0, .answer 1,
        .reread 1] s
    (s'.agents 1).task = .idle ∧
      ∃ sec' id, s'.stored = some sec' ∧ decodeIdentity plainCodec sec'.data = some id ∧
        "a" = id.endpointID ∧ 3 ≤ id.generation := by
  intro before s s'
  refine ⟨by decide +kernel, ?_⟩
  exact (secret_never_clobbered plainCodec (some before) s (Machine.steps_run _ _)).2 s'
    (Machine.steps_run _ _) before (sample "a" 3 (by decide)) rfl rfl

end SecretWorld

end KyYard.Kubernetes

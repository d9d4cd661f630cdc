import KyYard.Accounts.Delegation

/-!
# Directory events apply once and in order

KySignOn delivers its events to a webhook. A delivery is checked when it arrives, against the clock
then, and applied by a transaction that runs later and reads the clock again: it forgets the ids of
events older than the window, refuses an id it still knows, and refuses an event older than the
newest one applied to its subject. Deliveries may repeat, overtake each other and wait between the
two as long as they like; the clock does not go back.

Events of one subject are applied in the order of their timestamps, and a delivery that is not
applied changes nothing but the audit trail, in every run. An id is applied at most once in the runs
in which no transaction meets an applied event of its id that the window has passed
(`applied_once_and_in_order`): a copy that was checked in time and whose transaction starts after
the id was forgotten is applied again (`event_applied_twice`).
-/

namespace KyYard.Accounts

open Foundation

/-! ## The inbox -/

/-- The webhook: the database, the clock, the deliveries that passed their check, the audit rows of
refused ones still to be written, and the events applied so far, the first one first. -/
structure Inbox where
  db : Db
  now : Int
  checked : List SyncPayload
  unlogged : List AuditRecord
  applied : List SyncPayload
deriving DecidableEq

/-- Deliveries and the workers. -/
inductive InboxOp
  | tick (t : Int)
  | receive (payload : SyncPayload)
  | transact (payload : SyncPayload) (suffix : String)
  | logAudit (r : AuditRecord)

/-- There is no such delivery or row, or the clock would go back. -/
inductive Impossible
  | impossible
deriving DecidableEq

def inboxStep (b : Backend) (op : InboxOp) (w : Inbox) : Except Impossible Inbox :=
  match op with
  | .tick t => if w.now ≤ t then .ok { w with now := t } else .error .impossible
  | .receive payload =>
    match checkSync payload w.now with
    | .ok () => .ok { w with checked := w.checked ++ [payload] }
    | .error _ => .ok w
  | .transact payload suffix =>
    if payload ∈ w.checked then
      match syncTransaction b payload suffix w.now w.db with
      | .ok db =>
        .ok { w with
          db := db, checked := w.checked.erase payload, applied := w.applied ++ [payload] }
      | .error r =>
        .ok { w with
          checked := w.checked.erase payload, unlogged := w.unlogged ++ r.record.toList }
    else .error .impossible
  | .logAudit r =>
    if r ∈ w.unlogged then .ok { w with db := w.db.log r, unlogged := w.unlogged.erase r }
    else .error .impossible

/-- Any order of operations. -/
def inbox (b : Backend) : Machine Inbox InboxOp Impossible := ⟨inboxStep b⟩

/-! ## The replay records -/

/-- The replay records are the same. -/
structure SameRecords (db db' : Db) : Prop where
  events : db'.directoryEvents = db.directoryEvents
  subjects : db'.directorySubjects = db.directorySubjects

section Records

variable {b : Backend} {now : Int} {db db₁ db' : Db}

theorem SameRecords.refl (db : Db) : SameRecords db db := ⟨rfl, rfl⟩

theorem SameRecords.trans (h : SameRecords db db₁) (h' : SameRecords db₁ db') :
    SameRecords db db' :=
  ⟨h'.events.trans h.events, h'.subjects.trans h.subjects⟩

theorem Db.Swept.sameRecords (h : Db.Swept db db') : SameRecords db db' := by
  have hevents := congrArg Db.directoryEvents h.frame
  have hsubjects := congrArg Db.directorySubjects h.frame
  exact ⟨hevents, hsubjects⟩

theorem sameRecords_adminQuorum {user : String} {external : Bool}
    {write : Db → Except Err (Option Db)}
    (hwrite : ∀ db₁, write db = .ok (some db₁) → SameRecords db db₁)
    (h : adminQuorum b user external now write db = .ok db') : SameRecords db db' := by
  obtain ⟨db₁, hdb₁, hquorum⟩ := adminQuorum_eq_ok h
  exact (hwrite db₁ hdb₁).trans (swept_quorum hquorum).sameRecords

/-- What an event does to accounts leaves the records that its transaction wrote. -/
theorem Applied.sameRecords {payload : SyncPayload} (h : Applied b payload now db db') :
    SameRecords db db' := by
  cases h with
  | nothing h =>
    rw [h]
    exact SameRecords.refl db
  | created _ _ h =>
    obtain ⟨-, codes, is, rfl⟩ := createUser_frame h
    exact ⟨rfl, rfl⟩
  | updated _ _ db₁ _ _ h hafter =>
    have hupdate : SameRecords db db₁ := by
      refine sameRecords_adminQuorum (fun db₂ hrow => ?_) h
      obtain ⟨f, -, rfl⟩ := identityRow_frame hrow
      exact ⟨rfl, rfl⟩
    rcases hafter with rfl | ⟨rfl, -⟩
    · exact hupdate.trans ⟨rfl, rfl⟩
    · exact hupdate
  | deleted _ _ h =>
    apply sameRecords_adminQuorum _ h
    intro db₁ hdelete
    rw [deleteRow_eq_ok hdelete]
    exact ⟨rfl, rfl⟩

/-- The cutoff of a transaction: what is older is forgotten. -/
def cutoff (now : Int) : Int := unix (now - directoryEventWindow)

theorem cutoff_mono {t t' : Int} (h : t ≤ t') : cutoff t ≤ cutoff t' := by
  apply Int.ediv_le_ediv (by decide)
  omega

/-- The record of an event. -/
def SyncPayload.row (p : SyncPayload) : DirectoryEventRow := ⟨kysignon, p.eventID, p.timestamp⟩

/-- What a transaction that commits found and left in the records. -/
structure Claimed (payload : SyncPayload) (now : Int) (db db' : Db) : Prop where
  fresh : ∀ e ∈ db.directoryEvents, cutoff now ≤ e.eventAt → e.key ≠ payload.row.key
  newest : ∀ s ∈ db.directorySubjects, s.key = (kysignon, payload.id) →
    s.eventAt ≤ payload.timestamp
  events : db'.directoryEvents =
    (db.directoryEvents.filter fun e => ¬ e.eventAt < cutoff now) ++ [payload.row]
  subjects : db'.directorySubjects = Table.upsert DirectorySubject.key (fun _ _ => true)
    db.directorySubjects ⟨kysignon, payload.id, payload.timestamp⟩

theorem claimed_syncTransaction {payload : SyncPayload} {suffix : String}
    (h : syncTransaction b payload suffix now db = .ok db') : Claimed payload now db db' := by
  obtain ⟨db₁, hclaim, happly⟩ := applyDirectoryEvent_eq_ok (mapError_eq_ok.1 h)
  have hrecords := (applied_apply happly).sameRecords
  simp only [claimEvent, guard_error_eq_ok, List.any_eq_true, not_exists, not_and,
    Bool.and_eq_true, decide_eq_true_eq, not_not, List.mem_filter] at hclaim
  obtain ⟨hfresh, hnewest, hclaim⟩ := hclaim
  obtain rfl := Except.ok.inj hclaim
  refine ⟨?_, hnewest, hrecords.events, hrecords.subjects⟩
  intro e he hcut
  exact hfresh e ⟨he, by simpa [cutoff] using hcut⟩

end Records

/-! ## What holds of every run -/

/-- Events of one subject were applied in the order of their timestamps. -/
def InOrder (applied : List SyncPayload) : Prop :=
  applied.Pairwise fun e e' => e.id = e'.id → e.timestamp ≤ e'.timestamp

/-- An applied event has its record until the window has passed it, and its subject's record is at
least as new. -/
structure Recorded (w : Inbox) : Prop where
  events : ∀ e ∈ w.applied, e.row ∈ w.db.directoryEvents ∨ e.timestamp < cutoff w.now
  subjects : ∀ e ∈ w.applied, ∃ s ∈ w.db.directorySubjects,
    s.key = (kysignon, e.id) ∧ e.timestamp ≤ s.eventAt
  ordered : InOrder w.applied

section Steps

variable {b : Backend} {op : InboxOp} {w w' : Inbox}

/-- A step applies no event and leaves all but the audit trail, or commits a transaction. -/
inductive Delivered (b : Backend) (w w' : Inbox) : InboxOp → Prop
  | nothing (op : InboxOp) (hnow : w.now ≤ w'.now) (happlied : w'.applied = w.applied)
      (hdb : w'.db = { w.db with audit := w'.db.audit }) : Delivered b w w' op
  | applied (payload : SyncPayload) (suffix : String)
      (h : syncTransaction b payload suffix w.now w.db = .ok w'.db) (hnow : w'.now = w.now)
      (happlied : w'.applied = w.applied ++ [payload]) :
      Delivered b w w' (.transact payload suffix)

theorem delivered_of_step (h : inboxStep b op w = .ok w') : Delivered b w w' op := by
  cases op with
  | tick =>
    obtain ⟨ht, rfl⟩ := ok_of_guard h
    exact .nothing _ ht rfl rfl
  | receive =>
    simp only [inboxStep] at h
    split at h
    · obtain rfl := Except.ok.inj h
      exact .nothing _ (Int.le_refl _) rfl rfl
    · obtain rfl := Except.ok.inj h
      exact .nothing _ (Int.le_refl _) rfl rfl
  | transact payload suffix =>
    obtain ⟨-, h⟩ := guard_else_error_eq_ok.1 h
    split at h
    · next db hsync =>
      obtain rfl := Except.ok.inj h
      exact .applied payload suffix hsync rfl rfl
    · obtain rfl := Except.ok.inj h
      exact .nothing _ (Int.le_refl _) rfl rfl
  | logAudit =>
    obtain ⟨-, rfl⟩ := ok_of_guard h
    exact .nothing _ (Int.le_refl _) rfl rfl

/-- A transaction that commits: the records of the events before it, and its own. -/
theorem Recorded.apply {payload : SyncPayload} (hw : Recorded w)
    (hc : Claimed payload w.now w.db w'.db) (hnow : w'.now = w.now)
    (happlied : w'.applied = w.applied ++ [payload]) : Recorded w' where
  events := by
    intro e he
    rw [happlied, List.mem_append, List.mem_singleton] at he
    rw [hc.events, hnow]
    rcases he with he | rfl
    · rcases hw.events e he with hrow | hold
      · by_cases hcut : e.timestamp < cutoff w.now
        · exact .inr hcut
        · refine .inl (List.mem_append_left _ (List.mem_filter.2 ⟨hrow, ?_⟩))
          exact decide_eq_true hcut
      · exact .inr hold
    · exact .inl (List.mem_append_right _ (List.mem_singleton_self _))
  subjects := by
    intro e he
    rw [happlied, List.mem_append, List.mem_singleton] at he
    rw [hc.subjects]
    -- the subject's record is the event's own now; the others are as they were
    have hnew : ∃ s ∈ Table.upsert DirectorySubject.key (fun _ _ => true) w.db.directorySubjects
        ⟨kysignon, payload.id, payload.timestamp⟩,
        s.key = (kysignon, payload.id) ∧ payload.timestamp ≤ s.eventAt := by
      have hfind := Table.find_upsert DirectorySubject.key (fun _ _ => true)
        w.db.directorySubjects ⟨kysignon, payload.id, payload.timestamp⟩ (kysignon, payload.id)
      have hkey : (⟨kysignon, payload.id, payload.timestamp⟩ : DirectorySubject).key =
          (kysignon, payload.id) := rfl
      rw [if_pos hkey] at hfind
      refine ⟨_, Table.mem_of_find _ hfind, Table.key_of_find _ hfind, ?_⟩
      unfold Table.settled
      split
      · exact Int.le_refl _
      · exact Int.le_refl _
    rcases he with he | rfl
    · obtain ⟨s, hs, hkey, hle⟩ := hw.subjects e he
      by_cases hid : e.id = payload.id
      · obtain ⟨s', hs', hkey', hle'⟩ := hnew
        refine ⟨s', hs', by rw [hkey', hid], ?_⟩
        have := hc.newest s hs (by rw [hkey, hid])
        omega
      · refine ⟨s, (Table.mem_upsert_of_ne _ _ ?_).2 hs, hkey, hle⟩
        rw [hkey]
        intro h
        exact hid (Prod.mk.inj h).2
    · exact hnew
  ordered := by
    unfold InOrder
    rw [happlied, List.pairwise_append]
    refine ⟨hw.ordered, List.pairwise_singleton _ _, ?_⟩
    intro e he e' he' hid
    obtain rfl := List.mem_singleton.1 he'
    obtain ⟨s, hs, hkey, hle⟩ := hw.subjects e he
    have := hc.newest s hs (by rw [hkey, hid])
    omega

theorem Delivered.recorded (h : Delivered b w w' op) (hw : Recorded w) : Recorded w' := by
  cases h with
  | nothing _ hnow happlied hdb =>
    have hevents := congrArg Db.directoryEvents hdb
    have hsubjects := congrArg Db.directorySubjects hdb
    refine ⟨?_, ?_, happlied ▸ hw.ordered⟩
    · intro e he
      rw [happlied] at he
      rw [show w'.db.directoryEvents = w.db.directoryEvents from hevents]
      rcases hw.events e he with hrow | hold
      · exact .inl hrow
      · exact .inr (Int.lt_of_lt_of_le hold (cutoff_mono hnow))
    · intro e he
      rw [happlied] at he
      rw [show w'.db.directorySubjects = w.db.directorySubjects from hsubjects]
      exact hw.subjects e he
  | applied _ _ h hnow happlied =>
    exact hw.apply (claimed_syncTransaction h) hnow happlied

/-! ## Once -/

/-- The transaction meets no applied event of its id that the window has passed. -/
def inTime (w : Inbox) : InboxOp → Bool
  | .transact payload _ =>
    w.applied.all fun e => e.eventID ≠ payload.eventID || cutoff w.now ≤ e.timestamp
  | _ => true

/-- No id was applied twice. -/
def Once (applied : List SyncPayload) : Prop := (applied.map SyncPayload.eventID).Nodup

theorem Delivered.once (h : Delivered b w w' op) (hw : Recorded w) (ht : inTime w op = true)
    (hn : Once w.applied) : Once w'.applied := by
  cases h with
  | nothing _ _ happlied =>
    rw [happlied]
    exact hn
  | applied _ _ h _ happlied =>
    have hc := claimed_syncTransaction h
    unfold Once
    rw [happlied]
    apply Table.nodup_concat hn
    intro e he hid
    -- the record of an applied event of this id would still be there
    simp only [inTime, List.all_eq_true, Bool.or_eq_true, decide_eq_true_eq] at ht
    have hcut : cutoff w.now ≤ e.timestamp := (ht e he).resolve_left (not_not.2 hid)
    rcases hw.events e he with hrow | hold
    · apply hc.fresh e.row hrow hcut
      simp [SyncPayload.row, DirectoryEventRow.key, hid]
    · omega

/-- In every run of deliveries, events of one subject are applied in order, and a step that applies
none changes nothing but the audit trail; and in the runs whose transactions all meet the window, no
id is applied twice. -/
theorem applied_once_and_in_order {w₀ : Inbox} (h₀ : w₀.applied = []) :
    (∀ w, (inbox b).Steps w₀ w → InOrder w.applied ∧
      ∀ op w', inboxStep b op w = .ok w' → w'.applied = w.applied →
        w'.db = { w.db with audit := w'.db.audit }) ∧
    ∀ w, ((inbox b).restrict fun w op => inTime w op = true).Steps w₀ w → Once w.applied := by
  have hstart : Recorded w₀ := by
    constructor
    · rw [h₀]
      exact fun e he => absurd he List.not_mem_nil
    · rw [h₀]
      exact fun e he => absurd he List.not_mem_nil
    · rw [h₀]
      exact List.Pairwise.nil
  constructor
  · intro w hrun
    have hw : Recorded w := by
      apply hrun.keeps _ hstart
      exact fun op w₁ w₂ hw₁ hstep => (delivered_of_step hstep).recorded hw₁
    refine ⟨hw.ordered, ?_⟩
    intro op w' hstep hsame
    cases delivered_of_step hstep with
    | nothing _ _ _ hdb => exact hdb
    | applied _ _ _ _ happlied =>
      rw [happlied] at hsame
      exact absurd hsame (by simp)
  · intro w hrun
    have hboth : Recorded w ∧ Once w.applied := by
      apply Machine.restrict_keeps _ hrun
      · refine ⟨hstart, ?_⟩
        rw [h₀]
        exact List.nodup_nil
      · rintro op w₁ w₂ ⟨hw₁, hn⟩ ht hstep
        have hd := delivered_of_step hstep
        exact ⟨hd.recorded hw₁, hd.once hw₁ ht hn⟩
    exact hboth.2

end Steps

/-- An event about a subject nobody has provisioned. -/
def sampleEvent : SyncPayload := ⟨"user.deactivated", "evt-1", "ext-1", "", "", "", "", "", 1000⟩

/-- The clock stands at the event's timestamp. -/
def freshInbox : Inbox := ⟨Db.empty, 1000000000000, [], [], []⟩

/-- Two copies within the window: the second one is refused. -/
theorem applied_once_and_in_order_copies :
    (((inbox ⟨.postgres, id⟩).restrict fun w op => inTime w op = true).run
      [.receive sampleEvent, .receive sampleEvent, .transact sampleEvent "1",
        .transact sampleEvent "2"] freshInbox).applied = [sampleEvent] ∧
    Once (((inbox ⟨.postgres, id⟩).restrict fun w op => inTime w op = true).run
      [.receive sampleEvent, .receive sampleEvent, .transact sampleEvent "1",
        .transact sampleEvent "2"] freshInbox).applied := by
  refine ⟨by decide +kernel, ?_⟩
  exact (applied_once_and_in_order rfl).2 _ (Machine.steps_run _ freshInbox)

/-- Both copies are checked in time; the second one's transaction starts five minutes and two seconds
after the event and is applied again. -/
theorem event_applied_twice :
    ((inbox ⟨.postgres, id⟩).run
      [.receive sampleEvent, .receive sampleEvent, .transact sampleEvent "1",
        .tick 1302000000000, .transact sampleEvent "2"] freshInbox).applied =
      [sampleEvent, sampleEvent] := by
  decide +kernel

end KyYard.Accounts

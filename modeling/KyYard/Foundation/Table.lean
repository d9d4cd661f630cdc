import Mathlib.Data.List.Sort

/-!
# Tables as lists of rows

A table is the list of its rows. `find` reads the row with a key, `updateWhere` changes the rows a
test selects and `upsert` inserts a row or, where its key is taken, replaces the row there if a
guard allows it. Each operation has its lemma on what the table holds afterwards; the proofs about
transactions use only those.
-/

namespace KyYard.Foundation.Table

universe u v

variable {α : Type u} {κ : Type v} [DecidableEq κ]

/-- The first row with a key. -/
def find (key : α → κ) (k : κ) (t : List α) : Option α := t.find? fun r => key r = k

/-- The rows with those a test selects changed. -/
def updateWhere (p : α → Bool) (f : α → α) (t : List α) : List α :=
  t.map fun r => if p r then f r else r

/-- The row inserted, or put in the place of the row with its key if `lands old new`. -/
def upsert (key : α → κ) (lands : α → α → Bool) (t : List α) (r : α) : List α :=
  if t.any (fun old => key old = key r) then
    t.map fun old => if key old = key r ∧ lands old r = true then r else old
  else t ++ [r]

/-! ## One more row -/

theorem mem_concat {t : List α} {r x : α} : x ∈ t ++ [r] ↔ x ∈ t ∨ x = r := by
  rw [List.mem_append, List.mem_singleton]

theorem nodup_concat {β : Type v} {col : α → β} {t : List α} {r : α} (hn : (t.map col).Nodup)
    (hr : ∀ x ∈ t, col x ≠ col r) : ((t ++ [r]).map col).Nodup := by
  rw [List.map_append]
  refine List.nodup_append'.2 ⟨hn, List.nodup_singleton _, ?_⟩
  intro k hk hk'
  obtain ⟨x, hx, rfl⟩ := List.mem_map.1 hk
  exact hr x hx (List.mem_singleton.1 hk')

section Find

variable (key : α → κ)

variable {t : List α}

theorem key_of_find {k : κ} {r : α} (h : find key k t = some r) : key r = k := by
  simpa using List.find?_some h

theorem mem_of_find {k : κ} {r : α} (h : find key k t = some r) : r ∈ t :=
  List.mem_of_find?_eq_some h

theorem find_isSome_iff {k : κ} : (find key k t).isSome = true ↔ ∃ r ∈ t, key r = k := by
  simp [find]

theorem find_eq_none_iff {k : κ} : find key k t = none ↔ ∀ r ∈ t, key r ≠ k := by
  simp [find]

/-- A change that keeps the keys changes the row found at a key. -/
theorem find_map {g : α → α} (hg : ∀ a, key (g a) = key a) (k : κ) (t : List α) :
    find key k (t.map g) = (find key k t).map g := by
  simp only [find, List.find?_map, Function.comp_def, hg]

/-- A row found after an insertion was found before, or the key is the new row's. -/
theorem find_concat {k : κ} {r r' : α} (h : find key k (t ++ [r]) = some r') :
    find key k t = some r' ∨ k = key r := by
  rw [find, List.find?_append, Option.or_eq_some_iff] at h
  rcases h with h | ⟨-, h⟩
  · exact .inl h
  · have hk := List.find?_some h
    rw [List.mem_singleton.1 (List.mem_of_find?_eq_some h)] at hk
    exact .inr (of_decide_eq_true hk).symm

/-- A deletion that spares the rows with a key. -/
theorem find_filter {k : κ} {q : α → Bool} (hq : ∀ r ∈ t, key r = k → q r = true) :
    find key k (t.filter q) = find key k t := by
  induction t with
  | nil => rfl
  | cons a t ih =>
    have ih := ih fun r hr => hq r (List.mem_cons_of_mem _ hr)
    by_cases ha : key a = k
    · simp [find, hq a List.mem_cons_self ha, ha]
    · by_cases hqa : q a = true <;> simpa [find, ha] using ih

/-- Under distinct keys, a row of the table is the one found at its key. -/
theorem find_of_mem (hn : (t.map key).Nodup) {r : α} (hr : r ∈ t) :
    find key (key r) t = some r := by
  obtain ⟨s, hs⟩ := Option.isSome_iff_exists.1 ((find_isSome_iff key).2 ⟨r, hr, rfl⟩)
  rw [hs, List.inj_on_of_nodup_map hn (mem_of_find key hs) hr (key_of_find key hs)]

/-- Under distinct keys, a row is the only one with its key. -/
theorem filter_key_eq (hn : (t.map key).Nodup) {r : α} (hr : r ∈ t) :
    (t.filter fun x => key x = key r) = [r] := by
  have hone : ∀ x ∈ t.filter fun x => key x = key r, x = r := by
    intro x hx
    obtain ⟨hx, hk⟩ := List.mem_filter.1 hx
    exact List.inj_on_of_nodup_map hn hx hr (by simpa using hk)
  have hnodup : (t.filter fun x => key x = key r).Nodup := (hn.of_map key).filter _
  have hmem : r ∈ t.filter fun x => key x = key r := List.mem_filter.2 ⟨hr, by simp⟩
  exact List.perm_singleton.1
    ((List.perm_ext_iff_of_nodup hnodup (List.nodup_singleton r)).2 fun x =>
      ⟨fun hx => List.mem_singleton.2 (hone x hx), fun hx => List.mem_singleton.1 hx ▸ hmem⟩)

end Find

section UpdateWhere

variable {p : α → Bool} {f : α → α}

theorem mem_updateWhere {t : List α} {r : α} :
    r ∈ updateWhere p f t ↔ ∃ r₀ ∈ t, r = if p r₀ then f r₀ else r₀ := by
  unfold updateWhere
  rw [List.mem_map]
  constructor
  · rintro ⟨r₀, h, rfl⟩
    exact ⟨r₀, h, rfl⟩
  · rintro ⟨r₀, h, rfl⟩
    exact ⟨r₀, h, rfl⟩

/-- A change of rows that keeps a column is not seen in it. -/
theorem map_col {β : Type v} {col : α → β} {t : List α} (hf : ∀ r ∈ t, col (f r) = col r) :
    (t.map f).map col = t.map col := by
  rw [List.map_map]
  exact List.map_congr_left hf

theorem map_updateWhere {β : Type v} {col : α → β} (hf : ∀ r, col (f r) = col r) (t : List α) :
    (updateWhere p f t).map col = t.map col := by
  apply map_col
  intro r _
  by_cases h : p r = true <;> simp [h, hf]

/-- A change of rows that keeps a column keeps it free of repetitions. -/
theorem nodup_updateWhere {β : Type v} {col : α → β} {t : List α} (hn : (t.map col).Nodup)
    (hf : ∀ r, col (f r) = col r) : ((updateWhere p f t).map col).Nodup := by
  rw [map_updateWhere hf]
  exact hn

/-- A row found after a change that keeps the keys was found before. -/
theorem find_updateWhere {key : α → κ} (hf : ∀ r, key (f r) = key r) {k : κ} {t : List α} {r' : α}
    (h : find key k (updateWhere p f t) = some r') :
    ∃ r, find key k t = some r ∧ r' = if p r then f r else r := by
  rw [updateWhere, find_map key (fun r => by by_cases hp : p r = true <;> simp [hp, hf])] at h
  obtain ⟨r, hr, rfl⟩ := Option.map_eq_some_iff.1 h
  exact ⟨r, hr, rfl⟩

/-- A change of rows that a test passes over, before and after, is not seen through the test. -/
theorem filter_updateWhere {q : α → Bool} {t : List α}
    (h : ∀ r ∈ t, p r = true → q r = false ∧ q (f r) = false) :
    (updateWhere p f t).filter q = t.filter q := by
  induction t with
  | nil => rfl
  | cons r t ih =>
    have ht := ih fun x hx => h x (List.mem_cons_of_mem r hx)
    rw [updateWhere] at ht
    rw [updateWhere, List.map_cons, List.filter_cons, List.filter_cons, ht]
    by_cases hp : p r = true
    · obtain ⟨h₁, h₂⟩ := h r List.mem_cons_self hp
      simp [hp, h₁, h₂]
    · simp [hp]

end UpdateWhere

section Order

variable {r : α → α → Prop} [DecidableRel r]

/-- A row that stands before every other one heads the sorted table. -/
theorem head?_insertionSort {t : List α} {m : α} (hm : m ∈ t)
    (hfirst : ∀ x ∈ t, x ≠ m → r m x ∧ ¬ r x m) : (t.insertionSort r).head? = some m := by
  induction t with
  | nil => cases hm
  | cons a t ih =>
    rw [List.insertionSort_cons]
    by_cases hmt : m ∈ t
    · have hhead := ih hmt fun x hx => hfirst x (List.mem_cons_of_mem a hx)
      obtain ⟨b, s, hs⟩ : ∃ b s, t.insertionSort r = b :: s := by
        cases hc : t.insertionSort r with
        | nil => simp [hc] at hhead
        | cons b s => exact ⟨b, s, rfl⟩
      rw [hs, List.head?_cons, Option.some.injEq] at hhead
      subst hhead
      rw [hs, List.orderedInsert_cons]
      by_cases ha : a = b
      · subst ha
        split <;> rfl
      · rw [if_neg (hfirst a List.mem_cons_self ha).2]
        rfl
    · -- the new row is the one sought, and it stands before all the others
      obtain rfl : m = a := (List.mem_cons.1 hm).resolve_right hmt
      cases hs : t.insertionSort r with
      | nil => rfl
      | cons b =>
        have hb : b ∈ t := (List.mem_insertionSort r).1 (hs ▸ List.mem_cons_self)
        have hne : b ≠ m := fun h => hmt (h ▸ hb)
        rw [List.orderedInsert_cons, if_pos (hfirst b (List.mem_cons_of_mem m hb) hne).1]
        rfl

end Order

section Selection

/-- What is selected in the end was selected half way, or is selected from there. -/
theorem filter_perm_split {l : List α} {p q : α → Bool} (h : ∀ x ∈ l, p x = true → q x = true) :
    (l.filter q).Perm (l.filter p ++ l.filter fun x => !p x && q x) := by
  have hp : (l.filter q).filter p = l.filter p := by
    rw [List.filter_filter]
    apply List.filter_congr
    intro x hx
    cases hpx : p x <;> simp [hpx, h x hx]
  have hq : ((l.filter q).filter fun x => !p x) = l.filter fun x => !p x && q x :=
    List.filter_filter
  rw [← hp, ← hq]
  exact (List.filter_append_perm p _).symm

/-- The rows of two changes, one after the other. -/
theorem rows_perm_trans {rows rows₁ rows' : List String} {l : List α} {c : α → α}
    {row : α → String} {p q₁ q₂ : α → Bool} (hc : ∀ x, row (c x) = row x)
    (hp : ∀ x ∈ l, p x = true → q₂ x = true) (hq : ∀ x ∈ l, (!p x && q₂ x) = q₁ (c x))
    (h : rows₁.Perm (rows ++ (l.filter p).map row))
    (h' : rows'.Perm (rows₁ ++ ((l.map c).filter q₁).map row)) :
    rows'.Perm (rows ++ (l.filter q₂).map row) := by
  have hsecond : ((l.map c).filter q₁).map row = (l.filter fun x => !p x && q₂ x).map row := by
    rw [List.filter_map, List.map_map]
    rw [List.filter_congr hq]
    exact List.map_congr_left fun x _ => hc x
  rw [hsecond] at h'
  apply h'.trans
  apply (h.append_right _).trans
  rw [List.append_assoc, ← List.map_append]
  exact ((filter_perm_split hp).symm.map row).append_left rows

end Selection

section Upsert

variable (key : α → κ) (lands : α → α → Bool)

/-- What stands at a key after a row was put there. -/
def settled (old : Option α) (r : α) : α :=
  match old with
  | none => r
  | some old => if lands old r then r else old

theorem find_upsert (t : List α) (r : α) (k : κ) :
    find key k (upsert key lands t r) =
      if key r = k then some (settled lands (find key k t) r) else find key k t := by
  unfold upsert
  split
  · next hany =>
    have hkey : ∀ old, key (if key old = key r ∧ lands old r = true then r else old) = key old := by
      intro old
      split
      · next h => exact h.1.symm
      · rfl
    rw [find_map key hkey]
    cases hold : find key k t with
    | none =>
      have hr : ¬ key r = k := by
        intro hr
        simp only [List.any_eq_true, decide_eq_true_eq] at hany
        obtain ⟨x, hx, hk⟩ := hany
        exact (find_eq_none_iff key).1 hold x hx (hk.trans hr)
      simp [hr]
    | some old =>
      have hk := key_of_find key hold
      by_cases hr : key r = k
      · by_cases hl : lands old r = true <;> simp [hk, hr, settled]
      · have : ¬ k = key r := fun h => hr h.symm
        simp [hk, hr, this]
  · next hany =>
    simp only [List.any_eq_true, decide_eq_true_eq, not_exists, not_and] at hany
    by_cases hr : key r = k
    · have hnone : find key k t = none :=
        (find_eq_none_iff key).2 fun x hx h => hany x hx (h.trans hr.symm)
      rw [hnone]
      simp only [find] at hnone
      simp [find, hnone, settled]
    · simp [find, hr]

/-- Rows with another key are not concerned. -/
theorem mem_upsert_of_ne {t : List α} {r x : α} (hx : key x ≠ key r) :
    x ∈ upsert key lands t r ↔ x ∈ t := by
  unfold upsert
  split
  · rw [List.mem_map]
    constructor
    · rintro ⟨old, hold, h⟩
      split at h
      · exact absurd (congrArg key h.symm) hx
      · exact h ▸ hold
    · intro h
      exact ⟨x, h, if_neg fun hk => hx hk.1⟩
  · rw [List.mem_append, List.mem_singleton]
    constructor
    · rintro (h | rfl)
      · exact h
      · exact absurd rfl hx
    · exact Or.inl

/-- A row of the table stays, unless it is the one replaced. -/
theorem mem_upsert_of_mem {t : List α} {old : α} (hold : old ∈ t) (r : α) :
    (if key old = key r ∧ lands old r = true then r else old) ∈ upsert key lands t r := by
  unfold upsert
  split
  · exact List.mem_map.2 ⟨old, hold, rfl⟩
  · next hany =>
    simp only [List.any_eq_true, decide_eq_true_eq, not_exists, not_and] at hany
    rw [if_neg fun hk => hany old hold hk.1]
    exact List.mem_append_left _ hold

/-- The row is in the table, or one that it may not replace stands there. -/
theorem mem_upsert_or (t : List α) (r : α) : r ∈ upsert key lands t r ∨
    ∃ old ∈ t, key old = key r ∧ lands old r = false ∧ old ∈ upsert key lands t r := by
  by_cases hany : ∃ old ∈ t, key old = key r
  · obtain ⟨old, hold, hk⟩ := hany
    have hmem := mem_upsert_of_mem key lands hold r
    cases hl : lands old r with
    | true =>
      rw [if_pos ⟨hk, hl⟩] at hmem
      exact .inl hmem
    | false =>
      rw [if_neg fun h => by simp [hl] at h] at hmem
      exact .inr ⟨old, hold, hk, hl, hmem⟩
  · left
    unfold upsert
    rw [if_neg (by simpa using hany)]
    exact List.mem_append_right _ (List.mem_singleton_self r)

theorem nodup_upsert {t : List α} (hn : (t.map key).Nodup) (r : α) :
    ((upsert key lands t r).map key).Nodup := by
  unfold upsert
  split
  · rw [map_col]
    · exact hn
    · intro old _
      by_cases h : key old = key r ∧ lands old r = true
      · simp [h]
      · simp [h]
  · next hany =>
    simp only [List.any_eq_true, decide_eq_true_eq, not_exists, not_and] at hany
    exact nodup_concat hn hany

theorem nodup_foldl_upsert {t : List α} (hn : (t.map key).Nodup) (rows : List α) :
    ((rows.foldl (upsert key lands) t).map key).Nodup := by
  induction rows generalizing t with
  | nil => exact hn
  | cons r rows ih => exact ih (nodup_upsert key lands hn r)

/-- Rows with distinct keys put in one after the other: each meets the table as it was. -/
theorem find_foldl_upsert (rows t : List α) (hn : (rows.map key).Nodup) (k : κ) :
    find key k (rows.foldl (upsert key lands) t) =
      (find key k rows).elim (find key k t) fun r => some (settled lands (find key k t) r) := by
  induction rows generalizing t with
  | nil => rfl
  | cons r rows ih =>
    rw [List.map_cons, List.nodup_cons] at hn
    rw [List.foldl_cons, ih _ hn.2, find_upsert]
    by_cases hr : key r = k
    · have hnone : find key k rows = none := by
        rw [find_eq_none_iff]
        intro x hx hk
        exact hn.1 (List.mem_map.2 ⟨x, hx, hk.trans hr.symm⟩)
      simp only [find] at hnone
      simp [find, hr, hnone]
    · simp [find, hr]

end Upsert

end KyYard.Foundation.Table

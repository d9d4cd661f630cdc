import Mathlib.Data.List.Nodup

/-!
# Finite maps with text keys

`Dict V` is a finite map from `String` as a list of entries whose keys are distinct: the
distinctness is a field, so a map with two values for a key cannot be built. A missing key reads as
`none` (`Dict.get?`) or as a default.
-/

namespace KyYard.Foundation

/-- A finite map from text. -/
structure Dict (V : Type) where
  entries : List (String × V)
  nodup : (entries.map Prod.fst).Nodup
deriving DecidableEq

namespace Dict

variable {V W : Type}

/-- The map with no entries. -/
def empty : Dict V := ⟨[], List.nodup_nil⟩

instance : Inhabited (Dict V) := ⟨empty⟩

/-- The keys. -/
def keys (d : Dict V) : List String := d.entries.map Prod.fst

/-- The number of entries. -/
def size (d : Dict V) : Nat := d.entries.length

/-- The value at a key. -/
def get? (d : Dict V) (k : String) : Option V := d.entries.lookup k

/-- The key has a value. -/
def contains (d : Dict V) (k : String) : Bool := (d.get? k).isSome

/-- The entries whose key and value pass a test. -/
def filter (p : String → V → Bool) (d : Dict V) : Dict V where
  entries := d.entries.filter fun e => p e.1 e.2
  nodup := d.nodup.sublist (List.filter_sublist.map Prod.fst)

/-- The same keys with other values. -/
def map (f : String → V → W) (d : Dict V) : Dict W where
  entries := d.entries.map fun e => (e.1, f e.1 e.2)
  nodup := by simpa [List.map_map, Function.comp_def] using d.nodup

/-- The value at one key replaced, or the key added at the end. -/
def insert (d : Dict V) (k : String) (v : V) : Dict V where
  entries := d.entries.filter (fun e => e.1 ≠ k) ++ [(k, v)]
  nodup := by
    have hsub := d.nodup.sublist ((List.filter_sublist (p := fun e => e.1 ≠ k)).map Prod.fst)
    rw [List.map_append, List.map_singleton]
    refine List.nodup_append'.2 ⟨hsub, List.nodup_singleton k, ?_⟩
    intro x hx hk
    obtain ⟨e, he, rfl⟩ := List.mem_map.1 hx
    have hne := (List.mem_filter.1 he).2
    simp only [List.mem_singleton] at hk
    simp [hk] at hne

/-- The map of a list of pairs; of two with one key, the last. -/
def ofList (l : List (String × V)) : Dict V := l.foldl (fun d e => d.insert e.1 e.2) empty

/-! ## Reading -/

theorem get?_eq_some_iff {d : Dict V} {k : String} {v : V} :
    d.get? k = some v ↔ (k, v) ∈ d.entries := by
  unfold get?
  obtain ⟨entries, hn⟩ := d
  induction entries with
  | nil => simp
  | cons e es ih =>
    obtain ⟨a, b⟩ := e
    rw [List.map_cons, List.nodup_cons] at hn
    by_cases hk : k = a
    · subst hk
      -- no later entry has the key
      have hno : (k, v) ∉ es := fun hm => hn.1 (List.mem_map.2 ⟨(k, v), hm, rfl⟩)
      simp [hno, eq_comm]
    · have hb : (k == a) = false := by simpa using hk
      simp only [List.lookup_cons, hb, List.mem_cons, Prod.mk.injEq, hk, false_and, false_or]
      exact ih hn.2

theorem get?_filter (p : String → V → Bool) (d : Dict V) (k : String) :
    (d.filter p).get? k = (d.get? k).filter (p k) := by
  apply Option.ext
  intro v
  rw [get?_eq_some_iff, Option.filter_eq_some_iff, get?_eq_some_iff, filter, List.mem_filter]

theorem get?_map (f : String → V → W) (d : Dict V) (k : String) :
    (d.map f).get? k = (d.get? k).map (f k) := by
  apply Option.ext
  intro w
  rw [get?_eq_some_iff, Option.map_eq_some_iff, map, List.mem_map]
  constructor
  · rintro ⟨⟨k', v⟩, hm, heq⟩
    obtain ⟨rfl, rfl⟩ := Prod.mk.inj heq
    exact ⟨v, get?_eq_some_iff.2 hm, rfl⟩
  · rintro ⟨v, hv, rfl⟩
    exact ⟨(k, v), get?_eq_some_iff.1 hv, rfl⟩

theorem get?_insert (d : Dict V) (k : String) (v : V) (k' : String) :
    (d.insert k v).get? k' = if k' = k then some v else d.get? k' := by
  apply Option.ext
  intro w
  rw [get?_eq_some_iff, insert]
  by_cases hk : k' = k
  · simp [hk, eq_comm]
  · simp [hk, get?_eq_some_iff]

theorem contains_iff {d : Dict V} {k : String} : d.contains k = true ↔ k ∈ d.keys := by
  rw [contains, Option.isSome_iff_exists, keys, List.mem_map]
  constructor
  · rintro ⟨v, hv⟩
    exact ⟨(k, v), get?_eq_some_iff.1 hv, rfl⟩
  · rintro ⟨⟨k', v⟩, he, rfl⟩
    exact ⟨v, get?_eq_some_iff.2 he⟩

@[simp]
theorem get?_empty (k : String) : (empty : Dict V).get? k = none := rfl

variable {l : List (String × V)}

/-- Insertions one after the other: a value is the map's or one of the pairs'. -/
theorem get?_foldl_insert {d : Dict V} {k : String} {v : V}
    (h : (l.foldl (fun d e => d.insert e.1 e.2) d).get? k = some v) :
    d.get? k = some v ∨ (k, v) ∈ l := by
  induction l generalizing d with
  | nil => exact .inl h
  | cons e l ih =>
    rcases ih h with hd | hl
    · rw [get?_insert] at hd
      split at hd
      · next hk => exact .inr (List.mem_cons.2 (.inl (by rw [hk, ← Option.some.inj hd])))
      · exact .inl hd
    · exact .inr (List.mem_cons_of_mem _ hl)

theorem contains_foldl_insert {d : Dict V} {k : String}
    (h : d.contains k = true ∨ ∃ e ∈ l, e.1 = k) :
    (l.foldl (fun d e => d.insert e.1 e.2) d).contains k = true := by
  induction l generalizing d with
  | nil =>
    rcases h with h | ⟨e, he, -⟩
    · exact h
    · cases he
  | cons e l ih =>
    apply ih
    rw [contains, get?_insert]
    by_cases hk : k = e.1
    · exact .inl (by rw [if_pos hk]; rfl)
    rw [if_neg hk]
    rcases h with h | ⟨e', he', hk'⟩
    · exact .inl h
    · rcases List.mem_cons.1 he' with rfl | he'
      · exact absurd hk'.symm hk
      · exact .inr ⟨e', he', hk'⟩

theorem mem_of_get?_ofList {k : String} {v : V} (h : (ofList l).get? k = some v) : (k, v) ∈ l := by
  rcases get?_foldl_insert h with hnone | hl
  · cases hnone
  · exact hl

theorem contains_ofList {e : String × V} (he : e ∈ l) : (ofList l).contains e.1 = true :=
  contains_foldl_insert (.inr ⟨e, he, rfl⟩)

end Dict

end KyYard.Foundation

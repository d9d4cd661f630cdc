import Mathlib.Algebra.Ring.Int.Defs
import KyYard.Foundation.Json
import KyYard.Foundation.Runes

/-!
# What an agent says it can do

The agent's hello lists its capabilities. The server decodes the list within limits of its own and
stores what is left, unless the store refuses it.

`capabilities_kept_iff`: of names the store takes one by one, a list is stored as a prefix of what the
agent sent if and only if its first `maxCapabilities` names are within `maxCapabilityBytes`. Beyond
that a name is cut, at worst to nothing (`capability_cut`).
-/

namespace KyYard.Agent

open Foundation

/-! ## Decoding -/

/-- A hello. A capability is its bytes: a cut need not fall between two characters. -/
structure Hello where
  state : String
  heartbeatSeconds : Int
  capabilities : List Bytes
  agentVersion : String

/-- A string; `null` leaves what was there. -/
def decodeString : Json → Option String
  | .str s => some s
  | .null => some ""
  | _ => none

/-- A 64-bit integer; `null` is zero. -/
def decodeInt : Json → Option Int
  | .num n => if -2 ^ 63 ≤ n ∧ n < 2 ^ 63 then some n else none
  | .null => some 0
  | _ => none

def utf8 (s : String) : Bytes := s.toByteArray.data.toList

/-- The first `max` items of an array of strings; the others are not looked at. -/
def decodeBounded (max : Nat) : Json → Option (List Bytes)
  | .null => some []
  | .arr l => (l.take max).mapM fun j => (decodeString j).map utf8
  | _ => none

/-- The cut by text, with the bytes counted so far. -/
def boundText : Nat → List Bytes → List Bytes
  | _, [] => []
  | total, v :: rest =>
    let v := v.take 256
    let total := total + v.length
    if 4096 < total then [v.take (v.length - (total - 4096))] else v :: boundText total rest

/-- A member of an object; the last one of a name counts. -/
def member (fields : List (String × Json)) (k : String) : Option Json :=
  (fields.reverse.find? (·.1 == k)).map Prod.snd

/-- `UnmarshalHelloBounded`. -/
def unmarshalHelloBounded : Json → Option Hello
  | .null => some ⟨"", 0, [], ""⟩
  | .obj fields => do
    let state ← ((member fields "state").map decodeString).getD (some "")
    let heartbeat ← ((member fields "heartbeat_seconds").map decodeInt).getD (some 0)
    let version ← ((member fields "agent_version").map decodeString).getD (some "")
    let capabilities ← ((member fields "capabilities").map (decodeBounded 64)).getD (some [])
    return ⟨state, heartbeat, boundText 0 capabilities, version⟩
  | _ => none

/-! ## Storing -/

def maxCapabilities : Nat := 64
def maxCapabilityBytes : Nat := 4096

/-- A character that is a control, a line separator or a bidirectional control, by its bytes. -/
def unsafeRune : Bytes → Bool
  | [b] => b < 0x20 || b == 0x7F
  | [b, c] => b == 0xC2 && c ≤ 0x9F
  | [b, c, d] => b == 0xE2 &&
    (c == 0x80 && 0xA8 ≤ d && d ≤ 0xAE || c == 0x81 && 0xA6 ≤ d && d ≤ 0xA9)
  | _ => false

/-- Short, and safe to show. -/
def displaySafe (s : Bytes) : Bool :=
  s.length ≤ 255 && (Runes.tokens s).all fun t => t.isBad || !unsafeRune t.bytes

/-- Replaces the endpoint's rows. A name is a key, so none may be given twice. -/
def setEndpointCapabilities (endpointID : String) (capabilities : List Bytes)
    (rows : List (String × Bytes)) : Option (List (String × Bytes)) :=
  if capabilities.length ≤ maxCapabilities ∧
      (capabilities.map List.length).sum ≤ maxCapabilityBytes ∧
      (∀ c ∈ capabilities, displaySafe c = true ∧ c ≠ []) ∧ capabilities.Nodup then
    some (rows.filter (·.1 ≠ endpointID) ++ capabilities.map (endpointID, ·))
  else none

/-! ## The two limits -/

/-- The payload lists these capabilities. -/
def Sends (payload : Json) (names : List String) : Prop :=
  ∃ fields, payload = .obj fields ∧
    (member fields "capabilities" = some (.arr (names.map .str)) ∨
      names = [] ∧ (member fields "capabilities" = none ∨
        member fields "capabilities" = some .null))

theorem utf8_injective : Function.Injective utf8 := fun _ _ h =>
  String.toByteArray_inj.1 (ByteArray.ext (Array.toList_inj.1 h))

theorem boundText_eq {l : List Bytes} (hl : ∀ c ∈ l, c.length ≤ 255) {total : Nat}
    (h : total + (l.map List.length).sum ≤ 4096) : boundText total l = l := by
  induction l generalizing total with
  | nil => rfl
  | cons v l ih =>
    rw [List.map_cons, List.sum_cons] at h
    have hv := hl v List.mem_cons_self
    simp only [boundText, List.take_of_length_le (by omega : v.length ≤ 256)]
    rw [if_neg (by omega), ih (fun c hc => hl c (List.mem_cons_of_mem _ hc)) (by omega)]

/-- Past the limit the last name kept is not one that was given. -/
theorem boundText_cuts {l : List Bytes} (hl : ∀ c ∈ l, c.length ≤ 255) {total : Nat}
    (ht : total ≤ 4096) (h : 4096 < total + (l.map List.length).sum) : ¬ boundText total l <+: l := by
  induction l generalizing total with
  | nil => simp at h; omega
  | cons v l ih =>
    rw [List.map_cons, List.sum_cons] at h
    have hv := hl v List.mem_cons_self
    simp only [boundText, List.take_of_length_le (by omega : v.length ≤ 256)]
    split
    · intro hp
      have hcut := congrArg List.length (List.cons_prefix_cons.1 hp).1
      rw [List.length_take] at hcut
      omega
    · intro hp
      exact ih (fun c hc => hl c (List.mem_cons_of_mem _ hc)) (by omega) (by omega)
        (List.cons_prefix_cons.1 hp).2

theorem length_boundText_le (total : Nat) (l : List Bytes) :
    (boundText total l).length ≤ l.length := by
  induction l generalizing total with
  | nil => exact Nat.le_refl _
  | cons v l ih =>
    simp only [boundText]
    split
    · simp
    · simpa using ih _

/-- What is decoded is the front of what was sent, cut by text. -/
theorem capabilities_eq {payload : Json} {h : Hello} {names : List String}
    (hsent : Sends payload names) (hdecode : unmarshalHelloBounded payload = some h) :
    h.capabilities = boundText 0 ((names.map utf8).take maxCapabilities) := by
  obtain ⟨fields, rfl, hsent⟩ := hsent
  have hcaps : ((member fields "capabilities").map (decodeBounded 64)).getD (some []) =
      some ((names.map utf8).take 64) := by
    rcases hsent with hsent | ⟨rfl, hsent | hsent⟩
    · rw [hsent, Option.map_some, Option.getD_some, decodeBounded, ← List.map_take, List.mapM_map,
        ← List.map_take]
      exact List.mapM_pure
    · rw [hsent]
      rfl
    · rw [hsent]
      rfl
  rw [unmarshalHelloBounded, hcaps] at hdecode
  simp only [Option.bind_eq_bind, Option.bind_eq_some_iff] at hdecode
  obtain ⟨_, -, _, -, _, -, c, hc, hh⟩ := hdecode
  rw [← Option.some.inj hh, ← Option.some.inj hc]
  rfl

/-- Of distinct names that the store takes one by one, what is decoded is stored and is a prefix of
what was sent if and only if the names within the number are within the bytes too. -/
theorem capabilities_kept_iff (payload : Json) (h : Hello) (names : List String)
    (hsent : Sends payload names) (hdecode : unmarshalHelloBounded payload = some h)
    (hsafe : ∀ n ∈ names, displaySafe (utf8 n) = true ∧ utf8 n ≠ []) (hdistinct : names.Nodup)
    (endpointID : String) (rows : List (String × Bytes)) :
    ((setEndpointCapabilities endpointID h.capabilities rows).isSome = true ∧
        h.capabilities <+: names.map utf8) ↔
      (((names.map utf8).take maxCapabilities).map List.length).sum ≤ maxCapabilityBytes := by
  rw [capabilities_eq hsent hdecode]
  have hkept : ∀ c ∈ (names.map utf8).take maxCapabilities, displaySafe c = true ∧ c ≠ [] := by
    intro c hc
    obtain ⟨n, hn, rfl⟩ := List.mem_map.1 (List.mem_of_mem_take hc)
    exact hsafe n hn
  have hshort : ∀ c ∈ (names.map utf8).take maxCapabilities, c.length ≤ 255 := by
    intro c hc
    have := (hkept c hc).1
    rw [displaySafe, Bool.and_eq_true, decide_eq_true_eq] at this
    exact this.1
  have hnumber := List.length_take_le maxCapabilities (names.map utf8)
  constructor
  · rintro ⟨-, hp⟩
    by_contra hlong
    apply boundText_cuts hshort (Nat.zero_le _)
    · rw [Nat.zero_add]
      exact Nat.not_le.1 hlong
    · exact List.prefix_take_iff.2 ⟨hp, (length_boundText_le _ _).trans hnumber⟩
  · intro hfits
    rw [boundText_eq hshort (by rwa [Nat.zero_add])]
    refine ⟨?_, List.take_prefix _ _⟩
    rw [setEndpointCapabilities, if_pos ⟨hnumber, hfits, hkept,
      (hdistinct.map utf8_injective).sublist (List.take_sublist _ _)⟩]
    rfl

/-- Sixteen names of 255 bytes, one of 16 and another one. -/
def manyNames : List String :=
  ("abcdefghijklmnop".toList.map fun c => String.ofList (List.replicate 255 c)) ++
    [String.ofList (List.replicate 16 'q'), "r"]

/-- All but the last fill the bytes and are stored as sent. -/
theorem capabilities_kept_full :
    let names := manyNames.dropLast
    ((names.map utf8).map List.length).sum = maxCapabilityBytes ∧
      (setEndpointCapabilities "e" (boundText 0 (names.map utf8)) []).isSome = true ∧
      boundText 0 (names.map utf8) <+: names.map utf8 := by
  intro names
  have hsum : ((names.map utf8).map List.length).sum = maxCapabilityBytes := by decide +kernel
  have hdecode : unmarshalHelloBounded (.obj [("capabilities", .arr (names.map .str))]) =
      some ⟨"", 0, boundText 0 (names.map utf8), ""⟩ := rfl
  have hsafe : ∀ n ∈ names, displaySafe (utf8 n) = true ∧ utf8 n ≠ [] := by decide +kernel
  have hdistinct : names.Nodup := by decide +kernel
  have htake : (names.map utf8).take maxCapabilities = names.map utf8 := by decide +kernel
  clear_value names
  exact ⟨hsum, (capabilities_kept_iff _ _ names ⟨_, rfl, .inl rfl⟩ hdecode hsafe hdistinct "e" []).2
    (by rw [htake, hsum])⟩

/-- The last name is cut to nothing, and the store refuses the list for it. -/
theorem capability_cut :
    ∃ payload h, Sends payload manyNames ∧ unmarshalHelloBounded payload = some h ∧
      (∀ n ∈ manyNames, displaySafe (utf8 n) = true ∧ utf8 n ≠ []) ∧ manyNames.Nodup ∧
      h.capabilities.getLast? = some [] ∧ setEndpointCapabilities "e" h.capabilities [] = none ∧
      ¬ h.capabilities <+: manyNames.map utf8 := by
  refine ⟨.obj [("capabilities", .arr (manyNames.map .str))],
    ⟨"", 0, boundText 0 (manyNames.map utf8), ""⟩, ⟨_, rfl, .inl rfl⟩, ?_, ?_⟩
  · rfl
  · decide +kernel

end KyYard.Agent

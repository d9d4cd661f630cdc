import Mathlib.Data.List.Dedup
import KyYard.Foundation.Dict
import KyYard.Foundation.Sha256
import KyYard.Foundation.Text

/-!
# Names on the wire

The grammars an agent and the control plane both check, and `kubernetesNames`, the rule that names
an application's cluster objects. A name is the slug of project and service; only a slug longer than
63 characters, or one that two services share, is cut and suffixed with six hexadecimal digits of a
digest. `kubernetesName_eq_iff` says exactly when two names are equal.
-/

namespace KyYard.Protocol

open Foundation

/-! ## Grammars -/

/-- A container name or id. -/
def containerID : Pattern :=
  .seq (.one Class.alnum) (.rep 0 127 (.one (Class.orOf Class.alnum "_.-")))

/-- A container's id. -/
def validContainerID (s : String) : Bool := containerID.accepts s

/-- A full container id of 64 hexadecimal digits. -/
def validContainerHexID (s : String) : Bool := (Pattern.rep 64 64 (.one Class.hex)).accepts s

/-- An image id as the daemon reports it. -/
def imageID : Pattern := .seq (.lit "sha256:") (.rep 64 64 (.one Class.hex))

/-- A host or path component of an image reference. -/
def imageComponent : Pattern :=
  .seq (.plus (.one Class.alnum))
    (.star (.seq (.one fun c => c ∈ ['.', '_', '-']) (.plus (.one Class.alnum))))

/-- An image reference with an optional tag or digest. -/
def imageReference : Pattern :=
  .seq imageComponent (.seq (.opt (.seq (.char ':') (.plus (.one Class.digit))))
    (.seq (.star (.seq (.char '/') imageComponent))
      (.opt (.alt
        (.seq (.char ':') (.seq (.one (Class.orOf Class.alnum "_"))
          (.rep 0 127 (.one (Class.orOf Class.alnum "._-")))))
        (.seq (.lit "@sha256:") (.rep 64 64 (.one Class.hex)))))))

def maxImageReferenceBytes : Nat := 512

/-- A reference to an image. -/
def validImageReference (s : String) : Bool :=
  s ≠ "" && s.utf8ByteSize ≤ maxImageReferenceBytes &&
    (imageReference.accepts s || imageID.accepts s)

/-- The last index of a character. -/
def lastIndex (c : Char) (cs : List Char) : Option Nat :=
  if c ∈ cs then some (cs.length - 1 - cs.reverse.idxOf c) else none

/-- A reference as image name and the tag or digest that pins it. A colon before the last slash is
a registry port. -/
def splitImageReference (s : String) : String × String :=
  let cs := s.toList
  match lastIndex '@' cs with
  | some i => (String.ofList (cs.take i), String.ofList (cs.drop (i + 1)))
  | none => match lastIndex ':' cs with
    | some i =>
      if (lastIndex '/' cs).all (· < i) then
        (String.ofList (cs.take i), String.ofList (cs.drop (i + 1)))
      else (s, "")
    | none => (s, "")

/-- A label: alphanumeric at both ends, hyphens between, at most 63 characters. -/
def dnsLabel : Pattern :=
  let an : Pattern := .one fun c => Class.lower c || Class.digit c
  .seq an (.opt (.seq (.rep 0 61 (.one (Class.orOf Class.lower "0123456789-"))) an))

def validDNSLabel (s : String) : Bool := dnsLabel.accepts s

/-- Labels without a length bound, separated by dots. -/
def dnsSubdomain : Pattern :=
  let an : Pattern := .one fun c => Class.lower c || Class.digit c
  let part : Pattern := .seq an
    (.opt (.seq (.star (.one (Class.orOf Class.lower "0123456789-"))) an))
  .seq part (.star (.seq (.char '.') part))

def validDNSSubdomain (s : String) : Bool := s.utf8ByteSize ≤ 253 && dnsSubdomain.accepts s

/-- Kubernetes label value syntax. -/
def validLabelValue (s : String) : Bool :=
  (Pattern.opt (.seq (.one Class.alnum) (.opt (.seq (.rep 0 61 (.one (Class.orOf Class.alnum "-_.")))
    (.one Class.alnum))))).accepts s

/-! ## Object names -/

/-- The bound of a Deployment's and a Service's name. -/
def maxKubeObjectName : Nat := 63

/-- A character of a slug: letters lower-cased, digits kept, anything else a hyphen. -/
def slugChar (c : Char) : Char :=
  if ('a' ≤ c ∧ c ≤ 'z') ∨ ('0' ≤ c ∧ c ≤ '9') then c
  else if 'A' ≤ c ∧ c ≤ 'Z' then Char.ofNat (c.toNat + 'a'.toNat - 'A'.toNat)
  else '-'

/-- The slug of a service: `<project>-<service>` in slug characters without hyphens at the ends,
prefixed `ky-` when it would not start with a letter. -/
def slug (project s : String) : List Char :=
  let t := Text.trim (· == '-') ((project ++ "-" ++ s).toList.map slugChar)
  if ('a' ≤ t.headD '-') ∧ (t.headD '-' ≤ 'z') then t else "ky-".toList ++ t

/-- How many services have this slug. -/
def slugCount (project : String) (services : List String) (t : List Char) : Nat :=
  services.countP fun s => slug project s = t

/-- The slug is too long, or not this service's alone: the name gets a suffix. -/
def suffixed (project : String) (services : List String) (s : String) : Bool :=
  maxKubeObjectName < (slug project s).length || 1 < slugCount project services (slug project s)

/-- The part of a slug that a suffixed name keeps. -/
def stem (project s : String) : List Char :=
  ((slug project s).take (maxKubeObjectName - 7)).rdropWhile (· == '-')

/-- Six hexadecimal digits of the digest of project and service. -/
def digest6 (project s : String) : List Char :=
  (Text.hexEncode (Sha256.sum256 (project ++ "/" ++ s).toUTF8.toList)).take 6

/-- The suffixed form of a slug. -/
def suffixedName (project s : String) : List Char := stem project s ++ '-' :: digest6 project s

/-- The name of a service's objects. -/
def kubernetesName (project : String) (services : List String) (s : String) : String :=
  String.ofList
    (if suffixed project services s then suffixedName project s else slug project s)

/-- Each service with the name of its objects. -/
def kubernetesNames (project : String) (services : List String) : Dict String where
  entries := services.dedup.map fun s => (s, kubernetesName project services s)
  nodup := by
    have h : (services.dedup.map fun s => (s, kubernetesName project services s)).map Prod.fst
        = services.dedup := by
      rw [List.map_map]
      exact List.map_id _
    rw [h]
    exact services.nodup_dedup

theorem lookup_map_self {V : Type} (f : String → V) (s : String) :
    ∀ l : List String, (l.map fun x => (x, f x)).lookup s = if s ∈ l then some (f s) else none := by
  intro l
  induction l with
  | nil => rfl
  | cons x l ih =>
    rw [List.map_cons, List.lookup_cons, ih]
    by_cases h : s = x
    · subst h
      simp
    · have hb : (s == x) = false := by simpa using h
      simp [hb, h]

/-- The map has exactly the services as keys. -/
@[simp] theorem kubernetesNames_get? (project : String) (services : List String) (s : String) :
    (kubernetesNames project services).get? s =
      if s ∈ services then some (kubernetesName project services s) else none := by
  rw [Dict.get?, kubernetesNames, lookup_map_self]
  simp only [List.mem_dedup]

@[simp] theorem digest6_length (project s : String) : (digest6 project s).length = 6 := by
  simp [digest6]

/-- Two suffixed forms agree when both their parts do. -/
theorem suffixedName_eq_iff (project v w : String) :
    suffixedName project v = suffixedName project w ↔
      stem project v = stem project w ∧ digest6 project v = digest6 project w := by
  constructor
  · intro h
    have hlen : ('-' :: digest6 project v).length = ('-' :: digest6 project w).length := by simp
    obtain ⟨hs, hd⟩ := List.append_inj' h hlen
    exact ⟨hs, (List.cons.inj hd).2⟩
  · rintro ⟨hs, hd⟩
    rw [suffixedName, suffixedName, hs, hd]

/-- Services that share a slug are both suffixed. -/
theorem suffixed_of_slug_eq {project : String} {services : List String} {v w : String}
    (hv : v ∈ services) (hw : w ∈ services) (hne : v ≠ w)
    (h : slug project v = slug project w) : suffixed project services v = true := by
  have hcount : 1 < slugCount project services (slug project v) := by
    have hsub : [v, w] ⊆ services := by
      intro x hx
      simp only [List.mem_cons, List.not_mem_nil, or_false] at hx
      rcases hx with rfl | rfl <;> assumption
    have hnodup : [v, w].Nodup := by simp [hne]
    have hle := (List.subperm_of_subset hnodup hsub).countP_le
      (fun s => decide (slug project s = slug project v))
    have htwo : [v, w].countP (fun s => decide (slug project s = slug project v)) = 2 := by
      simp [h]
    rw [htwo] at hle
    exact hle
  simp [suffixed, hcount]

/-- No suffixed name is spelled by another service: not by another suffixed one, whose cut slug and
six digits are then the same, and not by a slug that needs no suffix. -/
def NoSuffixClash (project : String) (services : List String) : Prop :=
  ∀ v ∈ services, ∀ w ∈ services, v ≠ w → suffixed project services v = true →
    (suffixed project services w = true →
      ¬(stem project v = stem project w ∧ digest6 project v = digest6 project w)) ∧
    (suffixed project services w = false → slug project w ≠ suffixedName project v)

instance (project : String) (services : List String) :
    Decidable (NoSuffixClash project services) := by
  unfold NoSuffixClash
  infer_instance

/-- The names of two services: equal only through a suffix that clashes. -/
theorem kubernetesName_eq_iff {project : String} {services : List String} {v w : String}
    (hv : v ∈ services) (hw : w ∈ services) (hne : v ≠ w) :
    kubernetesName project services v = kubernetesName project services w ↔
      (suffixed project services v = true ∧ suffixed project services w = true ∧
        stem project v = stem project w ∧ digest6 project v = digest6 project w) ∨
      (suffixed project services v = true ∧ suffixed project services w = false ∧
        slug project w = suffixedName project v) ∨
      (suffixed project services v = false ∧ suffixed project services w = true ∧
        slug project v = suffixedName project w) := by
  unfold kubernetesName
  rw [String.ofList_inj]
  cases hsv : suffixed project services v <;> cases hsw : suffixed project services w
  · -- Two plain slugs are never equal: a shared slug is suffixed.
    have hslug : slug project v ≠ slug project w := by
      intro h
      rw [suffixed_of_slug_eq hv hw hne h] at hsv
      exact Bool.noConfusion hsv
    simpa using hslug
  · simp
  · simp [eq_comm]
  · simp [suffixedName_eq_iff]

/-- One service's names among two lists agree when it is suffixed in both or in neither, or its
suffixed form is its slug. -/
theorem kubernetesName_stable_iff (project : String) (services services' : List String)
    (s : String) :
    kubernetesName project services s = kubernetesName project services' s ↔
      suffixed project services s = suffixed project services' s ∨
        slug project s = suffixedName project s := by
  unfold kubernetesName
  rw [String.ofList_inj]
  cases suffixed project services s <;> cases suffixed project services' s <;> simp [eq_comm]

/-- The names of a list of services are distinct exactly when no suffix clashes. -/
theorem kubernetesName_distinct_iff (project : String) (services : List String) :
    (∀ v ∈ services, ∀ w ∈ services, v ≠ w →
      kubernetesName project services v ≠ kubernetesName project services w) ↔
      NoSuffixClash project services := by
  constructor
  · intro h v hv w hw hne hsv
    have hname := h v hv w hw hne
    rw [Ne, kubernetesName_eq_iff hv hw hne] at hname
    push Not at hname
    exact ⟨fun hsw he => hname.1 hsv hsw he.1 he.2, fun hsw => hname.2.1 hsv hsw⟩
  · intro h v hv w hw hne heq
    rcases (kubernetesName_eq_iff hv hw hne).1 heq with ⟨hsv, hsw, hs, hd⟩ | ⟨hsv, hsw, hs⟩ |
      ⟨hsv, hsw, hs⟩
    · exact (h v hv w hw hne hsv).1 hsw ⟨hs, hd⟩
    · exact (h v hv w hw hne hsv).2 hsw hs
    · exact (h w hw v hv hne.symm hsw).2 hsv hs

end KyYard.Protocol

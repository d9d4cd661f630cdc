import KyYard.Foundation.Sha256
import KyYard.Foundation.Text

/-!
# The names of an apply's objects

Each apply of a cluster agent writes its own ConfigMap and Secret under names suffixed from the
deployment's id. Secrets cannot be listed, so they are found by name: `secretFor` is the Secret a
ConfigMap is paired with, and `secretFor_envName` says that it finds the one rendered beside it.
-/

namespace KyYard.Kubernetes

open Foundation

/-! ## Names -/

/-- What an apply appends to the names of its ConfigMap and Secret: ten digits from the deployment's
id. -/
def applySuffix (deployment : String) : List Char :=
  '-' :: Text.hexEncode ((Sha256.sum256 deployment.toUTF8.toList).take 5)

/-- The ConfigMap of a service in one apply. -/
def envName (deployment name : String) : String :=
  String.ofList (name.toList ++ "-env".toList ++ applySuffix deployment)

/-- The Secret of a service in one apply. -/
def secretName (deployment name : String) : String :=
  String.ofList (name.toList ++ "-secret".toList ++ applySuffix deployment)

/-! ## The Secret of a ConfigMap -/

/-- The characters before a suffix, if there are any and they are on one line. -/
def stemBefore (suffix cs : List Char) : Option (List Char) :=
  let m := cs.take (cs.length - suffix.length)
  if suffix.isSuffixOf cs && !m.isEmpty && !m.contains '\n' then some m else none

/-- The Secret rendered beside a ConfigMap: `<name>-env-<suffix>`, or an earlier release's fixed
`<name>-env`. -/
def secretFor (configMap : String) : Option String :=
  let cs := configMap.toList
  match stemBefore "-env".toList cs with
  | some m => some (String.ofList (m ++ "-secret".toList))
  | none =>
    let tail := cs.drop (cs.length - 11)
    if tail.length == 11 && tail.headD ' ' == '-' && tail.tail.all Class.hex then
      (stemBefore "-env".toList (cs.take (cs.length - 11))).map fun m =>
        String.ofList (m ++ "-secret".toList ++ tail)
    else none

theorem stemBefore_append {suffix m : List Char} (hm : m ≠ []) (hl : '\n' ∉ m) :
    stemBefore suffix (m ++ suffix) = some m := by
  have hsuffix : suffix.isSuffixOf (m ++ suffix) = true :=
    List.isSuffixOf_iff_suffix.2 (List.suffix_append m suffix)
  simp [stemBefore, hm, hl]

@[simp] theorem applySuffix_length (deployment : String) : (applySuffix deployment).length = 11 := by
  simp [applySuffix]

/-- A name that ends in a hexadecimal digit is not a fixed name: those end in a `v`. -/
theorem stemBefore_env_hex {cs : List Char} {c : Char} (hc : Class.hex c = true) :
    stemBefore "-env".toList (cs ++ [c]) = none := by
  have hne : "-env".toList.isSuffixOf (cs ++ [c]) = false := by
    rw [Bool.eq_false_iff, ne_eq, List.isSuffixOf_iff_suffix]
    rintro ⟨t, ht⟩
    have hsplit : t ++ "-env".toList = (t ++ "-en".toList) ++ ['v'] := by simp
    rw [hsplit] at ht
    obtain ⟨-, hv⟩ := List.append_inj' ht rfl
    obtain rfl : 'v' = c := by simpa using hv
    exact absurd hc (by decide)
  simp only [stemBefore, hne, Bool.false_and, Bool.false_eq_true, if_false]

/-- The Secret found by an apply's ConfigMap is the one written beside it. -/
theorem secretFor_envName {deployment name : String} (hn : name.toList ≠ [])
    (hl : '\n' ∉ name.toList) :
    secretFor (envName deployment name) = some (secretName deployment name) := by
  have hlen := applySuffix_length deployment
  have hhex : (applySuffix deployment).tail.all Class.hex = true := by
    simp only [List.all_eq_true]
    exact fun c hc => Text.hex_of_mem_hexEncode hc
  have hhead : (applySuffix deployment).headD ' ' = '-' := rfl
  unfold secretFor envName secretName
  generalize applySuffix deployment = suffix at hlen hhex hhead ⊢
  rw [String.toList_ofList]
  -- The last digit decides the first case, the length of the suffix the second.
  have hnone : stemBefore "-env".toList (name.toList ++ "-env".toList ++ suffix) = none := by
    obtain ⟨init, c, rfl⟩ := List.eq_nil_or_concat suffix |>.resolve_left (by rintro rfl; simp at hlen)
    cases init with
    | nil => simp at hlen
    | cons =>
      rw [List.concat_eq_append, ← List.append_assoc]
      refine stemBefore_env_hex (List.all_eq_true.1 hhex c ?_)
      simp
  have hdrop : (name.toList ++ "-env".toList ++ suffix).drop
      ((name.toList ++ "-env".toList ++ suffix).length - 11) = suffix := by
    rw [List.length_append, hlen, Nat.add_sub_cancel, List.drop_left]
  have htake : (name.toList ++ "-env".toList ++ suffix).take
      ((name.toList ++ "-env".toList ++ suffix).length - 11) = name.toList ++ "-env".toList := by
    rw [List.length_append, hlen, Nat.add_sub_cancel, List.take_left]
  simp only [hnone, hdrop, htake, hlen, hhead, hhex, stemBefore_append hn hl]
  rfl

/-- Also for a service whose own name ends like a ConfigMap's. -/
theorem secretFor_envName_web_env :
    secretFor (envName "d" "web-env") = some (secretName "d" "web-env") :=
  secretFor_envName (by decide) (by decide)

end KyYard.Kubernetes

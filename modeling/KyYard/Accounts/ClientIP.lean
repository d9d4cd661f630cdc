import KyYard.Foundation.Netip

/-!
# The address a request is attributed to

`clientIP` is the key of the rate limiter and the address bound into a session. The header that says
for whom a request was forwarded is the caller's own text. It is read only if the peer is a trusted
proxy, and then from the right, up to the first entry that is not one.

`clientIP_unspoofable`: what stands left of that entry has no influence on the answer, which is the
entry's address or, if it is no address, the peer's.
-/

namespace KyYard.Accounts.ClientIP

open Foundation

/-! ## The code -/

/-- The address is a trusted proxy. -/
def isTrusted (addr : Addr) (trusted : List Prefix) : Bool := trusted.any (·.contains addr)

/-- The host of the transport peer, an embedded IPv4 address as such. -/
def peerIP (remoteAddr : String) : String :=
  let host := match splitHostPort? remoteAddr with
    | some (host, _) => host
    | none => String.ofList (Text.trim (fun c => c == '[' || c == ']') remoteAddr.toList)
  match Addr.parse? host with
  | some addr => addr.unmap.text
  | none => host

/-- The peer is a trusted proxy. -/
def trustedPeer (remoteAddr : String) (trusted : List Prefix) : Bool :=
  (Addr.parse? (peerIP remoteAddr)).any (isTrusted · trusted)

/-- An address, or an address with a port. -/
def parseForwardedEntry (entry : String) : Option Addr :=
  match Addr.parse? entry with
  | some addr => some addr.unmap
  | none =>
    match splitHostPort? entry with
    | none => none
    | some (host, _) => (Addr.parse? host).map Addr.unmap

/-- The entries of all lines of the header, joined and split again. -/
def parts (values : List String) : List String :=
  (([','].intercalate (values.map String.toList)).splitOn ',').map String.ofList

/-- The loop, over the entries from the right. -/
def walk (trusted : List Prefix) (peer : String) : List String → String
  | [] => peer
  | part :: rest =>
    match parseForwardedEntry (Text.trimSpace part) with
    | none => peer
    | some addr => if isTrusted addr trusted then walk trusted peer rest else addr.text

/-- `ClientIP`. -/
def clientIP (remoteAddr : String) (values : List String) (trusted : List Prefix) : String :=
  match Addr.parse? (peerIP remoteAddr) with
  | none => peerIP remoteAddr
  | some addr =>
    if isTrusted addr trusted then walk trusted (peerIP remoteAddr) (parts values).reverse
    else peerIP remoteAddr

/-! ## What decides -/

/-- The entries of a header, in the order of its lines. -/
def entries (values : List String) : List String :=
  values.flatMap fun v => (v.toList.splitOn ',').map String.ofList

/-- The address an entry stands for. -/
def entryAddr (entry : String) : Option Addr := parseForwardedEntry (Text.trimSpace entry)

/-- The entry names a trusted proxy. -/
def isProxy (trusted : List Prefix) (entry : String) : Bool :=
  (entryAddr entry).any (isTrusted · trusted)

/-- An entry is an untrusted address, and every entry to its right is a trusted proxy. -/
def Decides (trusted : List Prefix) (es : List String) (addr : Addr) : Prop :=
  ∃ left entry right, es = left ++ entry :: right ∧ entryAddr entry = some addr ∧
    isTrusted addr trusted = false ∧ ∀ e ∈ right, isProxy trusted e = true

/-- What a client cannot forge. -/
structure Unspoofable (remoteAddr : String) (trusted : List Prefix) : Prop where
  ignored : trustedPeer remoteAddr trusted = false →
    ∀ values, clientIP remoteAddr values trusted = peerIP remoteAddr
  decided : trustedPeer remoteAddr trusted = true → ∀ values addr,
    Decides trusted (entries values) addr → clientIP remoteAddr values trusted = addr.text
  undecided : ∀ values, (∀ addr, ¬ Decides trusted (entries values) addr) →
    clientIP remoteAddr values trusted = peerIP remoteAddr
  rightmost : ∀ values values' left left' right,
    entries values = left ++ right → entries values' = left' ++ right →
    (∃ e ∈ right, isProxy trusted e = false) →
    clientIP remoteAddr values trusted = clientIP remoteAddr values' trusted
  lines : ∀ values values', entries values = entries values' →
    clientIP remoteAddr values trusted = clientIP remoteAddr values' trusted

/-- Joining the lines and splitting them again splits each of them. -/
theorem parts_eq {values : List String} (h : values ≠ []) : parts values = entries values := by
  induction values with
  | nil => exact absurd rfl h
  | cons v values ih =>
    cases values with
    | nil => simp [parts, entries]
    | cons w values =>
      have hrest := ih (List.cons_ne_nil w values)
      rw [entries, List.flatMap_cons]
      rw [entries] at hrest
      rw [← hrest, parts, parts, ← List.map_append]
      congr 1
      exact List.splitOnP_append_cons v.toList _ (beq_self_eq_true ',')

section Walk

variable {trusted : List Prefix} {peer : String}

theorem walk_proxy {e : String} (h : isProxy trusted e = true) (rest : List String) :
    walk trusted peer (e :: rest) = walk trusted peer rest := by
  obtain ⟨addr, haddr, htrusted⟩ := (Option.any_eq_true _ _).1 h
  rw [entryAddr] at haddr
  rw [walk, haddr]
  exact if_pos htrusted

theorem walk_proxies {es : List String} (h : ∀ e ∈ es, isProxy trusted e = true) (rest : List String) :
    walk trusted peer (es ++ rest) = walk trusted peer rest := by
  induction es with
  | nil => rfl
  | cons e es ih =>
    rw [List.cons_append, walk_proxy (h e List.mem_cons_self)]
    exact ih fun x hx => h x (List.mem_cons_of_mem _ hx)

theorem walk_untrusted {e : String} {addr : Addr} (haddr : entryAddr e = some addr)
    (h : isTrusted addr trusted = false) (rest : List String) :
    walk trusted peer (e :: rest) = addr.text := by
  rw [entryAddr] at haddr
  rw [walk, haddr]
  exact if_neg (Bool.eq_false_iff.1 h)

/-- The walk ends at the first entry that is not a proxy. -/
theorem walk_stops {e : String} (h : isProxy trusted e = false) (rest rest' : List String) :
    walk trusted peer (e :: rest) = walk trusted peer (e :: rest') := by
  cases haddr : entryAddr e with
  | none =>
    rw [entryAddr] at haddr
    simp only [walk, haddr]
  | some =>
    rw [isProxy, haddr] at h
    rw [walk_untrusted haddr h, walk_untrusted haddr h]

theorem walk_append {es : List String} (h : ∃ e ∈ es, isProxy trusted e = false)
    (rest rest' : List String) : walk trusted peer (es ++ rest) = walk trusted peer (es ++ rest') := by
  induction es with
  | nil => simp at h
  | cons e es ih =>
    cases he : isProxy trusted e with
    | false => exact walk_stops he _ _
    | true =>
      obtain ⟨x, hx, hxp⟩ := h
      rcases List.mem_cons.1 hx with rfl | hx
      · rw [he] at hxp
        cases hxp
      · rw [List.cons_append, List.cons_append, walk_proxy he, walk_proxy he]
        exact ih ⟨x, hx, hxp⟩

/-- The walk finds the entry that decides, if there is one. -/
theorem walk_or_decides (es : List String) :
    walk trusted peer es = peer ∨ ∃ addr, Decides trusted es.reverse addr := by
  induction es with
  | nil => exact .inl rfl
  | cons e es ih =>
    cases he : isProxy trusted e with
    | true =>
      rw [walk_proxy he]
      refine ih.imp_right ?_
      rintro ⟨addr, left, entry, right, hes, haddr, huntrusted, hright⟩
      refine ⟨addr, left, entry, right ++ [e], ?_, haddr, huntrusted, ?_⟩
      · rw [List.reverse_cons, hes, List.append_assoc]
        rfl
      · intro x hx
        rcases List.mem_append.1 hx with hx | hx
        · exact hright x hx
        · rwa [List.mem_singleton.1 hx]
    | false =>
      cases haddr : entryAddr e with
      | none =>
        rw [entryAddr] at haddr
        left
        rw [walk, haddr]
      | some addr =>
        rw [isProxy, haddr] at he
        right
        exact ⟨addr, es.reverse, e, [], List.reverse_cons, haddr, he, nofun⟩

end Walk

theorem clientIP_of_untrusted {remoteAddr : String} {trusted : List Prefix}
    (h : trustedPeer remoteAddr trusted = false) (values : List String) :
    clientIP remoteAddr values trusted = peerIP remoteAddr := by
  unfold trustedPeer at h
  unfold clientIP
  generalize Addr.parse? (peerIP remoteAddr) = found at h ⊢
  cases found with
  | none => rfl
  | some =>
    exact if_neg (Bool.eq_false_iff.1 h)

theorem clientIP_of_trusted {remoteAddr : String} {trusted : List Prefix}
    (h : trustedPeer remoteAddr trusted = true) (values : List String) :
    clientIP remoteAddr values trusted =
      walk trusted (peerIP remoteAddr) (entries values).reverse := by
  have hwalk : clientIP remoteAddr values trusted =
      walk trusted (peerIP remoteAddr) (parts values).reverse := by
    unfold trustedPeer at h
    unfold clientIP
    generalize Addr.parse? (peerIP remoteAddr) = found at h ⊢
    cases found with
    | none => cases h
    | some =>
      exact if_pos h
  cases values with
  | nil =>
    -- without a header line the one part is empty, which is no address
    rw [hwalk]
    rfl
  | cons v values => rw [hwalk, parts_eq (List.cons_ne_nil v values)]

theorem clientIP_unspoofable (remoteAddr : String) (trusted : List Prefix) :
    Unspoofable remoteAddr trusted := by
  cases htrusted : trustedPeer remoteAddr trusted with
  | false =>
    have hpeer := clientIP_of_untrusted htrusted
    refine ⟨fun _ => hpeer, fun h => ?_, fun values _ => hpeer values, ?_, ?_⟩
    · rw [htrusted] at h
      cases h
    · intro values values' _ _ _ _ _ _
      rw [hpeer, hpeer]
    · intro values values' _
      rw [hpeer, hpeer]
  | true =>
    have hwalk := clientIP_of_trusted htrusted
    refine ⟨fun h => ?_, fun _ values addr hdecides => ?_, fun values hnone => ?_, ?_, ?_⟩
    · rw [htrusted] at h
      cases h
    · obtain ⟨left, entry, right, hes, haddr, huntrusted, hright⟩ := hdecides
      rw [hwalk, hes, List.reverse_append, List.reverse_cons, List.append_assoc, walk_proxies]
      · exact walk_untrusted haddr huntrusted _
      · exact fun e he => hright e (List.mem_reverse.1 he)
    · rw [hwalk]
      rcases walk_or_decides (entries values).reverse with hpeer | ⟨addr, hdecides⟩
      · exact hpeer
      · rw [List.reverse_reverse] at hdecides
        exact absurd hdecides (hnone addr)
    · intro values values' left left' right hes hes' hstops
      rw [hwalk, hwalk, hes, hes', List.reverse_append, List.reverse_append]
      apply walk_append
      obtain ⟨e, he, hproxy⟩ := hstops
      exact ⟨e, List.mem_reverse.2 he, hproxy⟩
    · intro values values' hes
      rw [hwalk, hwalk, hes]

end KyYard.Accounts.ClientIP

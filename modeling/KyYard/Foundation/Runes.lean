import KyYard.Foundation.Lines

/-!
# Bytes as characters

Bytes that need not be UTF-8 are scanned from the left: where a well-formed character stands it is one
token, and any other byte is a token of its own (`tokens`). Bytes are valid when every token is a
character. `toValid` puts one replacement character in the place of each run of other bytes, which are
those that `invalid` marks.

The marks determine the tokens (`eq_of_marks`). Tokens may be replaced list by list exactly if no run of
other bytes goes on from one list into the next (`mended_flatten_iff`), and valid bytes may be cut in
front of any byte that starts a character (`valid_cut`).
-/

namespace KyYard.Foundation

namespace Runes

/-! ## One character -/

/-- A byte inside a character, behind its first. -/
def inner (b : UInt8) : Bool := 0x80 ≤ b && b ≤ 0xBF

/-- For the first byte of a character: how many bytes follow, and the bounds on the next one. -/
def lead (b : UInt8) : Option (Nat × UInt8 × UInt8) :=
  if b < 0x80 then some (0, 0x80, 0xBF)
  else if b < 0xC2 then none
  else if b < 0xE0 then some (1, 0x80, 0xBF)
  else if b < 0xF0 then some (2, if b = 0xE0 then 0xA0 else 0x80, if b = 0xED then 0x9F else 0xBF)
  else if b < 0xF5 then some (3, if b = 0xF0 then 0x90 else 0x80, if b = 0xF4 then 0x8F else 0xBF)
  else none

/-- `n` inner bytes, the first of them within bounds. -/
def follows : Nat → UInt8 → UInt8 → Bytes → Bool
  | 0, _, _, _ => true
  | _ + 1, _, _, [] => false
  | n + 1, lo, hi, b :: s => lo ≤ b && b ≤ hi && follows n 0x80 0xBF s

/-- The length of the character the bytes start with, if they do. -/
def runeLen : Bytes → Option Nat
  | [] => none
  | b :: s =>
    match lead b with
    | some (n, lo, hi) => if follows n lo hi s then some (n + 1) else none
    | none => none

theorem lead_bounds {b lo hi : UInt8} {n : Nat} (h : lead b = some (n, lo, hi)) :
    n ≤ 3 ∧ 0x80 ≤ lo ∧ hi ≤ 0xBF := by
  unfold lead at h
  split at h
  · cases h
    decide
  split at h
  · cases h
  split at h
  · cases h
    decide
  split at h
  · cases h
    refine ⟨by decide, ?_, ?_⟩
    · split <;> decide
    · split <;> decide
  split at h
  · cases h
    refine ⟨by decide, ?_, ?_⟩
    · split <;> decide
    · split <;> decide
  · cases h

theorem follows_length {n : Nat} {lo hi : UInt8} {s : Bytes} (h : follows n lo hi s = true) :
    n ≤ s.length := by
  induction n generalizing lo hi s with
  | zero => exact Nat.zero_le _
  | succ n ih =>
    cases s with
    | nil => cases h
    | cons =>
      rw [follows, Bool.and_eq_true] at h
      exact Nat.succ_le_succ (ih h.2)

/-- Only the bytes of the character matter. -/
theorem follows_append {n : Nat} {lo hi : UInt8} {s : Bytes} (h : n ≤ s.length) (t : Bytes) :
    follows n lo hi (s ++ t) = follows n lo hi s := by
  induction n generalizing lo hi s with
  | zero => simp [follows]
  | succ n ih =>
    cases s with
    | nil => cases h
    | cons => rw [List.cons_append, follows, follows, ih (Nat.le_of_succ_le_succ h)]

theorem inner_of_follows {n : Nat} {lo hi : UInt8} {s : Bytes} (hlo : 0x80 ≤ lo) (hhi : hi ≤ 0xBF)
    (h : follows n lo hi s = true) : ∀ b ∈ s.take n, inner b = true := by
  induction n generalizing lo hi s with
  | zero => simp
  | succ n ih =>
    cases s with
    | nil => cases h
    | cons =>
      rw [follows, Bool.and_eq_true, Bool.and_eq_true, decide_eq_true_eq, decide_eq_true_eq] at h
      intro c hc
      rcases List.mem_cons.1 hc with rfl | hc
      · rw [inner, Bool.and_eq_true, decide_eq_true_eq, decide_eq_true_eq]
        exact ⟨UInt8.le_trans hlo h.1.1, UInt8.le_trans h.1.2 hhi⟩
      · exact ih (by decide) (by decide) h.2 c hc

theorem runeLen_cons {b : UInt8} {s : Bytes} {n : Nat} (h : runeLen (b :: s) = some n) :
    ∃ m lo hi, lead b = some (m, lo, hi) ∧ follows m lo hi s = true ∧ n = m + 1 := by
  rw [runeLen] at h
  split at h
  · next m lo hi hlead =>
    split at h
    · next hfollows =>
      cases h
      exact ⟨m, lo, hi, hlead, hfollows, rfl⟩
    · cases h
  · cases h

theorem runeLen_bounds {s : Bytes} {n : Nat} (h : runeLen s = some n) :
    0 < n ∧ n ≤ 4 ∧ n ≤ s.length := by
  cases s with
  | nil => cases h
  | cons =>
    obtain ⟨m, lo, hi, hlead, hfollows, rfl⟩ := runeLen_cons h
    have hm := (lead_bounds hlead).1
    have hlen := follows_length hfollows
    rw [List.length_cons]
    omega

/-- Whether bytes start with a character of `n` bytes is a matter of those bytes. -/
theorem runeLen_append {s : Bytes} {n : Nat} (t : Bytes) (h : n ≤ s.length) (hpos : 0 < n) :
    runeLen (s ++ t) = some n ↔ runeLen s = some n := by
  cases s with
  | nil => exact absurd h (Nat.not_le.2 hpos)
  | cons =>
    rw [List.cons_append]
    constructor
    · intro hrune
      obtain ⟨m, lo, hi, hlead, hfollows, rfl⟩ := runeLen_cons hrune
      rw [follows_append (Nat.le_of_succ_le_succ h)] at hfollows
      simp [runeLen, hlead, hfollows]
    · intro hrune
      obtain ⟨m, lo, hi, hlead, hfollows, rfl⟩ := runeLen_cons hrune
      rw [← follows_append (Nat.le_of_succ_le_succ h) t] at hfollows
      simp [runeLen, hlead, hfollows]

theorem runeLen_of_append {s t : Bytes} {n : Nat} (h : runeLen s = some n) :
    runeLen (s ++ t) = some n := by
  obtain ⟨hpos, -, hlen⟩ := runeLen_bounds h
  exact (runeLen_append t hlen hpos).2 h

/-- Behind its first byte a character has inner bytes only. -/
theorem inner_of_runeLen {b : UInt8} {s : Bytes} {n : Nat} (h : runeLen (b :: s) = some n) :
    ∀ c ∈ s.take (n - 1), inner c = true := by
  obtain ⟨m, lo, hi, hlead, hfollows, rfl⟩ := runeLen_cons h
  obtain ⟨-, hlo, hhi⟩ := lead_bounds hlead
  exact inner_of_follows hlo hhi hfollows

/-! ## Tokens -/

/-- A character, or a byte that belongs to none. -/
inductive Token where
  | rune (bytes : Bytes)
  | bad (b : UInt8)
deriving DecidableEq

/-- The bytes of a token. -/
def Token.bytes : Token → Bytes
  | .rune bytes => bytes
  | .bad b => [b]

/-- The token is no character. -/
def Token.isBad : Token → Bool
  | .rune _ => false
  | .bad _ => true

/-- Every token takes a byte at least, so the length is fuel enough. -/
def scan : Nat → Bytes → List Token
  | 0, _ => []
  | _ + 1, [] => []
  | fuel + 1, b :: s =>
    match runeLen (b :: s) with
    | some n => .rune ((b :: s).take n) :: scan fuel ((b :: s).drop n)
    | none => .bad b :: scan fuel s

/-- The characters and other bytes, from the left. -/
def tokens (s : Bytes) : List Token := scan s.length s

theorem scan_eq {fuel : Nat} {s : Bytes} (h : s.length ≤ fuel) : scan fuel s = tokens s := by
  -- both fuels are enough, so both scans read the bytes to their end
  have hsame : ∀ m n (s : Bytes), s.length ≤ m → s.length ≤ n → scan m s = scan n s := by
    intro m
    induction m with
    | zero =>
      intro n s hm _
      obtain rfl := List.length_eq_zero_iff.1 (Nat.le_zero.1 hm)
      cases n <;> rfl
    | succ m ih =>
      intro n s hm hn
      cases s with
      | nil => cases n <;> rfl
      | cons b s =>
        cases n with
        | zero => exact absurd hn (Nat.not_succ_le_zero _)
        | succ n =>
          rw [List.length_cons] at hm hn
          rw [scan, scan]
          cases hrune : runeLen (b :: s) with
          | none => rw [ih n s (by omega) (by omega)]
          | some k =>
            have hpos := (runeLen_bounds hrune).1
            have hdrop : ((b :: s).drop k).length ≤ s.length := by
              rw [List.length_drop, List.length_cons]
              omega
            simp only
            rw [ih n _ (by omega) (by omega)]
  exact hsame fuel s.length s h le_rfl

@[simp] theorem tokens_nil : tokens [] = [] := rfl

theorem tokens_rune {s : Bytes} {n : Nat} (h : runeLen s = some n) :
    tokens s = .rune (s.take n) :: tokens (s.drop n) := by
  cases s with
  | nil => cases h
  | cons =>
    have hpos := (runeLen_bounds h).1
    rw [tokens, List.length_cons, scan, h]
    simp only
    rw [scan_eq]
    rw [List.length_drop, List.length_cons]
    omega

theorem tokens_bad {b : UInt8} {s : Bytes} (h : runeLen (b :: s) = none) :
    tokens (b :: s) = .bad b :: tokens s := by
  rw [tokens, List.length_cons, scan, h]
  rfl

/-- Induction along a scan. -/
theorem tokens_induction {P : Bytes → Prop} (nil : P [])
    (rune : ∀ s n, runeLen s = some n → P (s.drop n) → P s)
    (bad : ∀ b s, runeLen (b :: s) = none → P s → P (b :: s)) (s : Bytes) : P s := by
  induction hlen : s.length using Nat.strong_induction_on generalizing s with
  | _ len ih =>
    cases s with
    | nil => exact nil
    | cons b s =>
      cases hrune : runeLen (b :: s) with
      | none => exact bad b s hrune (ih s.length (by rw [← hlen]; exact Nat.lt_succ_self _) s rfl)
      | some n =>
        obtain ⟨hpos, -, hle⟩ := runeLen_bounds hrune
        refine rune _ n hrune (ih _ ?_ _ rfl)
        rw [List.length_drop]
        omega

/-- The tokens hold every byte. -/
theorem tokens_bytes (s : Bytes) : (tokens s).flatMap Token.bytes = s := by
  induction s using tokens_induction with
  | nil => rfl
  | rune s n h ih =>
    rw [tokens_rune h, List.flatMap_cons, ih]
    exact List.take_append_drop n s
  | bad b s h ih =>
    rw [tokens_bad h, List.flatMap_cons, ih]
    rfl

/-- A character in front is a token in front. -/
theorem tokens_rune_append {r : Bytes} (h : runeLen r = some r.length) (s : Bytes) :
    tokens (r ++ s) = .rune r :: tokens s := by
  rw [tokens_rune (runeLen_of_append h), List.take_left, List.drop_left]

/-! ## Valid bytes -/

/-- Characters and nothing else. -/
def valid (s : Bytes) : Bool := (tokens s).all fun t => !t.isBad

/-- A token whose bytes are as it says. -/
def Token.Formed : Token → Prop
  | .rune r => runeLen r = some r.length
  | .bad _ => True

theorem ne_nil_of_formed {r : Bytes} (h : (Token.rune r).Formed) : r ≠ [] := by
  rintro rfl
  cases h

theorem bytes_ne_nil {t : Token} (h : t.Formed) : t.bytes ≠ [] := by
  cases t with
  | bad => exact List.cons_ne_nil _ _
  | rune => exact ne_nil_of_formed h

theorem formed_of_mem {s : Bytes} {t : Token} (h : t ∈ tokens s) : t.Formed := by
  induction s using tokens_induction with
  | nil => cases h
  | rune s n hrune ih =>
    rw [tokens_rune hrune] at h
    rcases List.mem_cons.1 h with rfl | h
    · obtain ⟨hpos, -, hle⟩ := runeLen_bounds hrune
      have hlen : (s.take n).length = n := List.length_take_of_le hle
      show runeLen (s.take n) = some (s.take n).length
      rw [hlen, ← runeLen_append (s.drop n) hlen.ge hpos, List.take_append_drop]
      exact hrune
    · exact ih h
  | bad b s hrune ih =>
    rw [tokens_bad hrune] at h
    rcases List.mem_cons.1 h with rfl | h
    · trivial
    · exact ih h

theorem not_bad_of_valid {s : Bytes} (h : valid s = true) {b : UInt8} : .bad b ∉ tokens s := by
  intro hmem
  have hgood := List.all_eq_true.1 h _ hmem
  cases hgood

/-- Characters one after the other are scanned as such. -/
theorem tokens_flatMap {ts : List Token} (h : ∀ t ∈ ts, t.Formed) (hgood : ∀ b, .bad b ∉ ts)
    (s : Bytes) : tokens (ts.flatMap Token.bytes ++ s) = ts ++ tokens s := by
  induction ts with
  | nil => rfl
  | cons t ts ih =>
    have hrest := ih (fun u hu => h u (List.mem_cons_of_mem _ hu))
      fun b hb => hgood b (List.mem_cons_of_mem _ hb)
    cases t with
    | bad b => exact absurd List.mem_cons_self (hgood b)
    | rune r =>
      have hr : runeLen r = some r.length := h _ List.mem_cons_self
      rw [List.flatMap_cons, Token.bytes, List.append_assoc, tokens_rune_append hr, hrest]
      rfl

/-! ## Replacement -/

/-- U+FFFD. -/
def replacement : Bytes := [0xEF, 0xBF, 0xBD]

/-- Characters as they are, and one replacement for each run of other bytes; `invalid` says whether one
goes on. -/
def render (invalid : Bool) : List Token → List Token
  | [] => []
  | .rune r :: ts => .rune r :: render false ts
  | .bad _ :: ts => if invalid then render true ts else .rune replacement :: render true ts

/-- The bytes of some tokens with every run of other bytes replaced. -/
def mended (run : Bool) (ts : List Token) : Bytes := (render run ts).flatMap Token.bytes

/-- The bytes with every run of bytes that belong to no character replaced. -/
def toValid (s : Bytes) : Bytes := mended false (tokens s)

theorem render_formed (invalid : Bool) {ts : List Token} (h : ∀ t ∈ ts, t.Formed) :
    ∀ t ∈ render invalid ts, t.Formed := by
  induction ts generalizing invalid with
  | nil => exact fun t ht => absurd ht List.not_mem_nil
  | cons u ts ih =>
    have hrest : ∀ invalid, ∀ t ∈ render invalid ts, t.Formed :=
      fun invalid => ih invalid fun t ht => h t (List.mem_cons_of_mem _ ht)
    cases u with
    | rune =>
      intro t ht
      rcases List.mem_cons.1 ht with rfl | ht
      · exact h _ List.mem_cons_self
      · exact hrest false t ht
    | bad =>
      intro t ht
      rw [render] at ht
      split at ht
      · exact hrest true t ht
      · rcases List.mem_cons.1 ht with rfl | ht
        · exact (by decide : runeLen replacement = some replacement.length)
        · exact hrest true t ht

theorem render_good (invalid : Bool) (ts : List Token) {b : UInt8} : .bad b ∉ render invalid ts := by
  induction ts generalizing invalid with
  | nil => exact List.not_mem_nil
  | cons u ts ih =>
    cases u with
    | rune =>
      intro h
      rcases List.mem_cons.1 h with h | h
      · cases h
      · exact ih false h
    | bad =>
      intro h
      rw [render] at h
      split at h
      · exact ih true h
      · rcases List.mem_cons.1 h with h | h
        · cases h
        · exact ih true h

theorem tokens_toValid (s : Bytes) : tokens (toValid s) = render false (tokens s) := by
  have hscan := tokens_flatMap (render_formed false fun t => formed_of_mem)
    (fun b => render_good false (tokens s)) []
  rwa [List.append_nil, tokens_nil, List.append_nil] at hscan

theorem valid_toValid (s : Bytes) : valid (toValid s) = true := by
  rw [valid, tokens_toValid, List.all_eq_true]
  intro t ht
  cases t with
  | rune => rfl
  | bad => exact absurd ht (render_good false _)

/-- Without other bytes there is nothing to replace. -/
theorem render_of_good (invalid : Bool) {ts : List Token} (h : ∀ b, .bad b ∉ ts) :
    render invalid ts = ts := by
  induction ts generalizing invalid with
  | nil => rfl
  | cons u ts ih =>
    cases u with
    | rune => rw [render, ih false fun b hb => h b (List.mem_cons_of_mem _ hb)]
    | bad b => exact absurd List.mem_cons_self (h b)

theorem toValid_of_valid {s : Bytes} (h : valid s = true) : toValid s = s := by
  rw [toValid, mended, render_of_good false fun b => not_bad_of_valid h, tokens_bytes]

/-! ## Which bytes are replaced -/

/-- For each byte of some tokens, whether it belongs to no character. -/
def marks (ts : List Token) : List Bool :=
  ts.flatMap fun t => List.replicate t.bytes.length t.isBad

/-- The bytes that belong to no character. -/
def invalid (s : Bytes) : List Bool := marks (tokens s)

/-- Tokens with the same bytes and the same marks are the same. -/
theorem eq_of_marks {ts us : List Token} (hts : ∀ t ∈ ts, t.Formed) (hus : ∀ t ∈ us, t.Formed)
    (hbytes : ts.flatMap Token.bytes = us.flatMap Token.bytes) (hmarks : marks ts = marks us) :
    ts = us := by
  induction ts generalizing us with
  | nil =>
    cases us with
    | nil => rfl
    | cons u =>
      have hnil := (List.append_eq_nil_iff.1 hbytes.symm).1
      exact absurd hnil (bytes_ne_nil (hus u List.mem_cons_self))
  | cons t ts ih =>
    cases us with
    | nil =>
      have hnil := (List.append_eq_nil_iff.1 hbytes).1
      exact absurd hnil (bytes_ne_nil (hts t List.mem_cons_self))
    | cons u us =>
      rw [marks, marks, List.flatMap_cons, List.flatMap_cons] at hmarks
      -- the first mark tells a character from another byte, and the bytes tell how long it is
      have hhead : t.isBad = u.isBad := by
        obtain ⟨b, x, hx⟩ := List.exists_cons_of_ne_nil (bytes_ne_nil (hts t List.mem_cons_self))
        obtain ⟨c, y, hy⟩ := List.exists_cons_of_ne_nil (bytes_ne_nil (hus u List.mem_cons_self))
        rw [hx, hy] at hmarks
        exact (List.cons.inj hmarks).1
      have hlen : t.bytes.length = u.bytes.length := by
        cases t with
        | bad =>
          cases u with
          | bad => rfl
          | rune => cases hhead
        | rune r =>
          cases u with
          | bad => cases hhead
          | rune r' =>
            have hr := runeLen_of_append (hts _ List.mem_cons_self) (t := ts.flatMap Token.bytes)
            have hr' := runeLen_of_append (hus _ List.mem_cons_self) (t := us.flatMap Token.bytes)
            have hsame : r ++ ts.flatMap Token.bytes = r' ++ us.flatMap Token.bytes := hbytes
            rw [hsame, hr', Option.some.injEq] at hr
            exact hr.symm
      obtain ⟨hfirst, hrest⟩ := List.append_inj hbytes hlen
      have htu : t = u := by
        cases t <;> cases u <;> simp_all [Token.isBad, Token.bytes]
      rw [htu] at hmarks
      rw [htu, ih (fun x hx => hts x (List.mem_cons_of_mem _ hx))
        (fun x hx => hus x (List.mem_cons_of_mem _ hx)) hrest (List.append_cancel_left hmarks)]

/-! ## Replacing list by list -/

/-- Whether a run of other bytes goes on behind some tokens. -/
def runAfter (run : Bool) : List Token → Bool
  | [] => run
  | t :: ts => runAfter t.isBad ts

/-- The tokens start with a byte that belongs to no character. -/
def startsBad : List Token → Bool
  | [] => false
  | t :: _ => t.isBad

/-- No run of other bytes goes on from one list into those behind it. -/
def runsWhole : List (List Token) → Bool
  | [] => true
  | ts :: tss => !(runAfter false ts && startsBad tss.flatten) && runsWhole tss

theorem render_append (run : Bool) (ts us : List Token) :
    render run (ts ++ us) = render run ts ++ render (runAfter run ts) us := by
  induction ts generalizing run with
  | nil => rfl
  | cons t ts ih =>
    cases t with
    | rune r =>
      rw [List.cons_append, render, ih]
      rfl
    | bad b =>
      rw [List.cons_append, render, render, ih]
      cases run <;> rfl

theorem mended_append (run : Bool) (ts us : List Token) :
    mended run (ts ++ us) = mended run ts ++ mended (runAfter run ts) us := by
  rw [mended, render_append, List.flatMap_append]
  rfl

/-- Where no run starts it makes no difference whether one goes on. -/
theorem mended_of_startsBad_eq_false {ts : List Token} (h : startsBad ts = false) (run : Bool) :
    mended run ts = mended false ts := by
  cases ts with
  | nil => rfl
  | cons t ts =>
    cases t with
    | rune => rfl
    | bad => cases h

/-- Where one starts it has a replacement of its own, unless it goes on. -/
theorem mended_of_startsBad {ts : List Token} (h : startsBad ts = true) :
    mended false ts = replacement ++ mended true ts := by
  cases ts with
  | nil => cases h
  | cons t ts =>
    cases t with
    | rune => cases h
    | bad => rfl

/-- Replacing list by list adds replacements, if anything. -/
theorem length_mended_flatten_le (tss : List (List Token)) :
    (mended false tss.flatten).length ≤ (tss.flatMap (mended false)).length := by
  induction tss with
  | nil => exact le_rfl
  | cons ts tss ih =>
    rw [List.flatten_cons, mended_append, List.flatMap_cons, List.length_append, List.length_append]
    refine Nat.add_le_add_left (le_trans ?_ ih) _
    cases hstart : startsBad tss.flatten with
    | false => rw [mended_of_startsBad_eq_false hstart]
    | true =>
      cases runAfter false ts with
      | false => exact le_rfl
      | true => simp [mended_of_startsBad hstart]

/-- Replacing list by list is replacing in the whole exactly if no run is cut. -/
theorem mended_flatten_iff (tss : List (List Token)) :
    mended false tss.flatten = tss.flatMap (mended false) ↔ runsWhole tss = true := by
  induction tss with
  | nil => exact ⟨fun _ => rfl, fun _ => rfl⟩
  | cons ts tss ih =>
    rw [List.flatten_cons, mended_append, List.flatMap_cons, List.append_cancel_left_eq, runsWhole]
    cases hstart : startsBad tss.flatten with
    | false => simp [mended_of_startsBad_eq_false hstart, ih]
    | true =>
      cases runAfter false ts with
      | false => simp [ih]
      | true =>
        -- the run that is cut has a replacement too many
        constructor
        · intro h
          have hle := length_mended_flatten_le tss
          rw [← h, mended_of_startsBad hstart, List.length_append] at hle
          exact absurd hle (by simp [replacement])
        · intro h
          cases h

/-! ## Cutting valid bytes -/

theorem valid_rune {s : Bytes} {n : Nat} (h : runeLen s = some n) : valid s = valid (s.drop n) := by
  rw [valid, tokens_rune h]
  rfl

/-- A cut in front of a byte that starts a character, or behind the last byte. -/
theorem valid_cut {s : Bytes} (h : valid s = true) {k : Nat} (hk : k ≤ s.length)
    (hstart : ∀ b, (s.drop k).head? = some b → inner b = false) :
    valid (s.take k) = true ∧ valid (s.drop k) = true := by
  induction s using tokens_induction generalizing k with
  | nil => exact ⟨by simp [valid], by simp [valid]⟩
  | bad b s hrune _ =>
    rw [valid, tokens_bad hrune] at h
    cases h
  | rune s n hrune ih =>
    obtain ⟨hpos, -, hle⟩ := runeLen_bounds hrune
    have hrest : valid (s.drop n) = true := (valid_rune hrune).symm.trans h
    rcases Nat.eq_zero_or_pos k with rfl | hkpos
    · exact ⟨by simp [valid], h⟩
    -- inside a character there are only inner bytes
    have hn : n ≤ k := by
      by_contra hlt
      obtain ⟨b, s, rfl⟩ := List.exists_cons_of_ne_nil (List.length_pos_iff.1 (hpos.trans_le hle))
      obtain ⟨j, rfl⟩ := Nat.exists_eq_add_of_lt hkpos
      rw [List.length_cons] at hle
      have hj : j < s.length := by omega
      have hin := inner_of_runeLen hrune s[j] (by
        rw [List.mem_take_iff_getElem]
        exact ⟨j, by omega, rfl⟩)
      rw [hstart s[j] (by simp)] at hin
      cases hin
    obtain ⟨htake, hdrop⟩ := ih hrest (k := k - n) (by rw [List.length_drop]; omega) (by
      intro b hb
      rw [List.drop_drop, Nat.add_sub_cancel' hn] at hb
      exact hstart b hb)
    rw [List.drop_drop, Nat.add_sub_cancel' hn] at hdrop
    refine ⟨?_, hdrop⟩
    have hfront : runeLen (s.take k) = some n := by
      rw [← runeLen_append (s.drop k) (by rw [List.length_take]; omega) hpos,
        List.take_append_drop]
      exact hrune
    rw [valid_rune hfront, List.drop_take]
    exact htake

theorem start_of_valid {b : UInt8} {s : Bytes} (h : valid (b :: s) = true) : inner b = false := by
  cases hrune : runeLen (b :: s) with
  | none =>
    rw [valid, tokens_bad hrune] at h
    cases h
  | some =>
    obtain ⟨m, lo, hi, hlead, -, -⟩ := runeLen_cons hrune
    cases hb : inner b with
    | false => rfl
    | true =>
      rw [inner, Bool.and_eq_true, decide_eq_true_eq, decide_eq_true_eq] at hb
      rw [lead, if_neg (UInt8.not_lt.2 hb.1), if_pos (UInt8.lt_of_le_of_lt hb.2 (by decide))] at hlead
      cases hlead

/-- A second character starts behind the first, which has at most four bytes. -/
theorem exists_start {s : Bytes} (h : valid s = true) (hs : s ≠ []) :
    ∃ n, 0 < n ∧ n ≤ 4 ∧ ∀ b, (s.drop n).head? = some b → inner b = false := by
  obtain ⟨b, s, rfl⟩ := List.exists_cons_of_ne_nil hs
  cases hrune : runeLen (b :: s) with
  | none =>
    rw [valid, tokens_bad hrune] at h
    cases h
  | some n =>
    obtain ⟨hpos, hfour, -⟩ := runeLen_bounds hrune
    refine ⟨n, hpos, hfour, fun c hc => ?_⟩
    obtain ⟨rest, hrest⟩ := List.head?_eq_some_iff.1 hc
    rw [valid_rune hrune, hrest] at h
    exact start_of_valid h

end Runes

end KyYard.Foundation

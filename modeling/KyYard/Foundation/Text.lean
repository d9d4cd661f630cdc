import Mathlib.Data.Char
import Mathlib.Data.List.DropRight
import Mathlib.Data.List.Lex
import Mathlib.Data.List.Sort

/-!
# Text

The string operations a server program is written with, on the characters of a `String`: prefixes,
cuts, trims, clean absolute paths, decimal and hexadecimal numbers, and anchored patterns with
character classes and bounded repetition (`Pattern`, matched by derivatives). Everything here
evaluates in the kernel.
-/

namespace KyYard.Foundation

namespace Text

/-! ## Prefixes, cuts and trims -/

/-- `s` starts with `p`. -/
def hasPrefix (s p : String) : Bool := p.toList.isPrefixOf s.toList

/-- `s` ends with `p`. -/
def hasSuffix (s p : String) : Bool := p.toList.isSuffixOf s.toList

/-- `s` without a leading `p`. -/
def trimPrefix (s p : String) : String :=
  if hasPrefix s p then String.ofList (s.toList.drop p.toList.length) else s

theorem trimPrefix_append (p s : String) : trimPrefix (p ++ s) p = s := by
  unfold trimPrefix hasPrefix
  rw [String.toList_append, if_pos (by simp), List.drop_left, String.ofList_toList]

/-- The characters before and after the first `sep`, if there is one. -/
def cutChars (sep : List Char) : List Char → Option (List Char × List Char)
  | [] => if sep.isEmpty then some ([], []) else none
  | c :: cs =>
    if sep.isPrefixOf (c :: cs) then some ([], (c :: cs).drop sep.length)
    else (cutChars sep cs).map fun (b, a) => (c :: b, a)

/-- `s` cut at the first `sep`. -/
def cut (s sep : String) : Option (String × String) :=
  (cutChars sep.toList s.toList).map fun (b, a) => (String.ofList b, String.ofList a)

/-- `s` contains `sub`. -/
def contains (s sub : String) : Bool := (cutChars sub.toList s.toList).isSome

/-- `s` without the characters of `p` at both ends. -/
def trim (p : Char → Bool) (s : List Char) : List Char := (s.dropWhile p).rdropWhile p

/-- White space, as Unicode defines it. -/
def isSpace (c : Char) : Bool :=
  (0x09 ≤ c.val && c.val ≤ 0x0d) || (0x2000 ≤ c.val && c.val ≤ 0x200a) ||
    c.val ∈ [0x20, 0x85, 0xa0, 0x1680, 0x2028, 0x2029, 0x202f, 0x205f, 0x3000]

/-- `s` without white space at both ends. -/
def trimSpace (s : String) : String := String.ofList (trim isSpace s.toList)

/-- A control character. -/
def isControl (c : Char) : Bool := c.val < 0x20 || (0x7f ≤ c.val && c.val < 0xa0)

/-! ## Paths -/

/-- The path is absolute and is its own lexical normal form: `/`, or segments none of which is
empty, `.` or `..`. -/
def cleanAbsolute (p : String) : Bool :=
  match p.toList with
  | [] => false
  | c :: cs => c == '/' && (cs.isEmpty ||
      (cs.splitOn '/').all fun seg => !seg.isEmpty && seg ≠ ['.'] && seg ≠ ['.', '.'])

/-! ## Numbers -/

def isDigit (c : Char) : Bool := '0' ≤ c && c ≤ '9'

/-- The value of decimal digits. -/
def digitsValue (cs : List Char) : Nat := cs.foldl (fun n c => 10 * n + (c.toNat - 48)) 0

/-- The value of a nonempty string of decimal digits. -/
def decimal? (cs : List Char) : Option Nat :=
  if cs ≠ [] ∧ cs.all isDigit then some (digitsValue cs) else none

/-- A signed decimal number: an optional sign and digits. -/
def atoi? (s : String) : Option Int :=
  match s.toList with
  | '-' :: cs => (decimal? cs).map fun n => -(n : Int)
  | '+' :: cs => (decimal? cs).map Int.ofNat
  | cs => (decimal? cs).map Int.ofNat

/-- The digit of a number below sixteen. -/
def hexDigit (n : Nat) : Char := if n < 10 then Char.ofNat (48 + n) else Char.ofNat (87 + n)

/-- Digits of `n` in a base, least significant first, at most `fuel` of them. -/
def digitsIn (base : Nat) : Nat → Nat → List Char
  | 0, _ => []
  | fuel + 1, n => hexDigit (n % base) :: if n / base = 0 then [] else digitsIn base fuel (n / base)

/-- Decimal spelling. -/
def itoa (n : Nat) : String := String.ofList (digitsIn 10 (n + 1) n).reverse

/-- Decimal spelling with a sign. -/
def itoaInt : Int → String
  | .ofNat n => itoa n
  | .negSucc n => "-" ++ itoa (n + 1)

/-- Hexadecimal spelling of bytes, two digits each. -/
def hexEncode (bytes : List UInt8) : List Char :=
  bytes.flatMap fun b => [hexDigit (b.toNat / 16), hexDigit (b.toNat % 16)]

@[simp] theorem hexEncode_length (bytes : List UInt8) :
    (hexEncode bytes).length = 2 * bytes.length := by
  induction bytes with
  | nil => rfl
  | cons b bs ih =>
    simp only [hexEncode, List.flatMap_cons, List.length_append, List.length_cons,
      List.length_nil] at ih ⊢
    omega

/-! ## Fields -/

/-- Where a text is cut at the first character outside a class, its two parts are determined. -/
theorem append_inj_of_head {p : Char → Bool} {a a' b b' : List Char} (ha : ∀ c ∈ a, p c = true)
    (ha' : ∀ c ∈ a', p c = true) (hb : ∀ c ∈ b.head?, p c = false)
    (hb' : ∀ c ∈ b'.head?, p c = false) (h : a ++ b = a' ++ b') : a = a' ∧ b = b' := by
  induction a generalizing a' with
  | nil =>
    cases a' with
    | nil => exact ⟨rfl, h⟩
    | cons c =>
      rw [List.nil_append] at h
      rw [h] at hb
      simp [ha' c List.mem_cons_self] at hb
  | cons c a ih =>
    cases a' with
    | nil =>
      rw [List.nil_append] at h
      rw [← h] at hb'
      simp [ha c List.mem_cons_self] at hb'
    | cons =>
      rw [List.cons_append, List.cons_append, List.cons.injEq] at h
      obtain ⟨rfl, rfl⟩ := ih (fun x hx => ha x (List.mem_cons_of_mem _ hx))
        (fun x hx => ha' x (List.mem_cons_of_mem _ hx)) h.2
      exact ⟨by rw [h.1], rfl⟩

/-! ## Order -/

/-- Code point order, which for UTF-8 text is byte order. -/
def le (s t : String) : Bool := decide (s.toList ≤ t.toList)

theorem le_total (s t : String) : le s t = true ∨ le t s = true := by
  simp only [le, decide_eq_true_eq]
  exact LinearOrder.le_total _ _

theorem le_trans {s t u : String} (h : le s t = true) (h' : le t u = true) : le s u = true := by
  simp only [le, decide_eq_true_eq] at *
  exact Preorder.le_trans _ _ _ h h'

/-- The strings in order. -/
def sort (l : List String) : List String := l.insertionSort (fun s t => le s t = true)

end Text

/-! ## Anchored patterns -/

/-- A regular expression over character classes. `rep lo hi p` is `p` between `lo` and `hi`
times. -/
inductive Pattern
  | empty
  | eps
  | one (p : Char → Bool)
  | seq (a b : Pattern)
  | alt (a b : Pattern)
  | star (a : Pattern)
  | rep (lo hi : Nat) (a : Pattern)

namespace Pattern

/-- The empty string matches. -/
def nullable : Pattern → Bool
  | empty => false
  | eps => true
  | one _ => false
  | seq a b => a.nullable && b.nullable
  | alt a b => a.nullable || b.nullable
  | star _ => true
  | rep lo hi a => lo ≤ hi && (lo == 0 || a.nullable)

/-- Sequence, with the trivial cases removed. -/
def cat : Pattern → Pattern → Pattern
  | empty, _ => empty
  | eps, b => b
  | a, b => seq a b

/-- Choice, with the trivial cases removed. -/
def or : Pattern → Pattern → Pattern
  | empty, b => b
  | a, empty => a
  | a, b => alt a b

/-- What may follow `c`. -/
def deriv (c : Char) : Pattern → Pattern
  | empty => empty
  | eps => empty
  | one p => if p c then eps else empty
  | seq a b => or (cat (a.deriv c) b) (if a.nullable then b.deriv c else empty)
  | alt a b => or (a.deriv c) (b.deriv c)
  | star a => cat (a.deriv c) (star a)
  | rep _ 0 _ => empty
  | rep lo (hi + 1) a => cat (a.deriv c) (rep (lo - 1) hi a)

/-- The whole string matches. -/
def accepts (p : Pattern) (s : String) : Bool := (s.toList.foldl (fun p c => p.deriv c) p).nullable

/-- A character. -/
def char (c : Char) : Pattern := one (· == c)

/-- A text. -/
def lit (s : String) : Pattern := s.toList.foldr (fun c p => seq (char c) p) eps

/-- One or more. -/
def plus (a : Pattern) : Pattern := seq a (star a)

/-- At most one. -/
def opt (a : Pattern) : Pattern := rep 0 1 a

theorem foldl_deriv_empty (cs : List Char) :
    cs.foldl (fun p c => p.deriv c) Pattern.empty = Pattern.empty := by
  induction cs with
  | nil => rfl
  | cons c cs ih => exact ih

/-! ### Characters and length of what a pattern accepts -/

/-- Every character of an accepted text satisfies `q`. -/
def All (q : Char → Prop) : Pattern → Prop
  | empty => True
  | eps => True
  | one p => ∀ c, p c = true → q c
  | seq a b => a.All q ∧ b.All q
  | alt a b => a.All q ∧ b.All q
  | star a => a.All q
  | rep _ _ a => a.All q

section Bounds

variable {q : Char → Prop} {a b p : Pattern}

theorem All.cat (ha : a.All q) (hb : b.All q) : (cat a b).All q := by
  cases a <;> first | exact hb | exact ⟨ha, hb⟩ | exact trivial

theorem All.or (ha : a.All q) (hb : b.All q) : (or a b).All q := by
  cases a <;> first | exact hb | (cases b <;> first | exact ha | exact ⟨ha, hb⟩)

/-- A character that may come next satisfies `q`, and so does what follows. -/
theorem All.deriv (h : p.All q) (c : Char) : (p.deriv c).All q ∧ (p.deriv c = empty ∨ q c) := by
  induction p with
  | empty => exact ⟨trivial, .inl rfl⟩
  | eps => exact ⟨trivial, .inl rfl⟩
  | one f =>
    by_cases hc : f c = true
    · simp only [Pattern.deriv, hc]
      exact ⟨trivial, .inr (h c hc)⟩
    · simp only [Pattern.deriv, hc]
      exact ⟨trivial, .inl rfl⟩
  | seq a b iha ihb =>
    obtain ⟨ha, hac⟩ := iha h.1
    obtain ⟨hb, hbc⟩ := ihb h.2
    simp only [Pattern.deriv]
    refine ⟨(ha.cat h.2).or (by split; exacts [hb, trivial]), ?_⟩
    rcases hac with hac | hq
    · rcases hbc with hbc | hq
      · left
        rw [hac, hbc]
        split <;> rfl
      · exact .inr hq
    · exact .inr hq
  | alt a b iha ihb =>
    obtain ⟨ha, hac⟩ := iha h.1
    obtain ⟨hb, hbc⟩ := ihb h.2
    simp only [Pattern.deriv]
    refine ⟨ha.or hb, ?_⟩
    rcases hac with hac | hq
    · rcases hbc with hbc | hq
      · exact .inl (by rw [hac, hbc]; rfl)
      · exact .inr hq
    · exact .inr hq
  | star a ih =>
    obtain ⟨ha, hac⟩ := ih h
    refine ⟨ha.cat h, hac.imp_left fun he => ?_⟩
    simp only [Pattern.deriv, he]
    rfl
  | rep lo hi a ih =>
    cases hi with
    | zero => exact ⟨trivial, .inl rfl⟩
    | succ hi =>
      obtain ⟨ha, hac⟩ := ih h
      have hrest : (rep (lo - 1) hi a).All q := h
      refine ⟨ha.cat hrest, hac.imp_left fun he => ?_⟩
      simp only [Pattern.deriv, he]
      rfl

theorem all_of_accepts (h : p.All q) {s : String} (hs : p.accepts s = true) : ∀ c ∈ s.toList, q c := by
  unfold accepts at hs
  generalize s.toList = cs at hs
  induction cs generalizing p with
  | nil => simp
  | cons c cs ih =>
    obtain ⟨hrest, hempty | hc⟩ := h.deriv c
    · rw [List.foldl_cons, hempty, foldl_deriv_empty] at hs
      cases hs
    · exact List.forall_mem_cons.2 ⟨hc, ih hrest hs⟩

end Bounds

end Pattern

/-! ## Character classes -/

namespace Class

def lower (c : Char) : Bool := 'a' ≤ c && c ≤ 'z'
def upper (c : Char) : Bool := 'A' ≤ c && c ≤ 'Z'
def digit (c : Char) : Bool := '0' ≤ c && c ≤ '9'
def alnum (c : Char) : Bool := lower c || upper c || digit c
def hex (c : Char) : Bool := digit c || ('a' ≤ c && c ≤ 'f')

/-- The class extended by some characters. -/
def orOf (p : Char → Bool) (s : String) (c : Char) : Bool := p c || s.toList.contains c

/-- A digit of a number below sixteen. -/
theorem hex_hexDigit : ∀ n < 16, hex (Text.hexDigit n) = true := by decide

end Class

/-- A hexadecimal spelling has hexadecimal digits only. -/
theorem Text.hex_of_mem_hexEncode {bytes : List UInt8} {c : Char}
    (h : c ∈ Text.hexEncode bytes) : Class.hex c = true := by
  obtain ⟨b, -, hc⟩ := List.mem_flatMap.1 h
  have hb := b.toNat_lt
  simp only [List.mem_cons, List.not_mem_nil, or_false] at hc
  rcases hc with rfl | rfl
  · exact Class.hex_hexDigit _ (by omega)
  · exact Class.hex_hexDigit _ (by omega)

end KyYard.Foundation

import Mathlib.Algebra.Group.Nat.Defs
import Mathlib.Data.List.Basic

/-!
# SHA-256

The hash function on byte lists, with 32-bit words as natural numbers reduced modulo `2 ^ 32`, so
that a digest evaluates in the kernel. Programs use it as a function only: the one fact about it
here is the digest's length (`sum256_length`). The bytes of a number determine it up to their width
(`mod_eq_of_toBytes_eq`).
-/

namespace KyYard.Foundation.Sha256

/-- Addition of words. -/
def add (x y : Nat) : Nat := (x + y) % 0x100000000

/-- Rotation of a word to the right. -/
def rotr (n x : Nat) : Nat := (x >>> n ||| x <<< (32 - n)) % 0x100000000

/-- The round constants. -/
def roundConstants : List Nat :=
  [ 0x428a2f98, 0x71374491, 0xb5c0fbcf, 0xe9b5dba5, 0x3956c25b, 0x59f111f1,
    0x923f82a4, 0xab1c5ed5, 0xd807aa98, 0x12835b01, 0x243185be, 0x550c7dc3,
    0x72be5d74, 0x80deb1fe, 0x9bdc06a7, 0xc19bf174, 0xe49b69c1, 0xefbe4786,
    0x0fc19dc6, 0x240ca1cc, 0x2de92c6f, 0x4a7484aa, 0x5cb0a9dc, 0x76f988da,
    0x983e5152, 0xa831c66d, 0xb00327c8, 0xbf597fc7, 0xc6e00bf3, 0xd5a79147,
    0x06ca6351, 0x14292967, 0x27b70a85, 0x2e1b2138, 0x4d2c6dfc, 0x53380d13,
    0x650a7354, 0x766a0abb, 0x81c2c92e, 0x92722c85, 0xa2bfe8a1, 0xa81a664b,
    0xc24b8b70, 0xc76c51a3, 0xd192e819, 0xd6990624, 0xf40e3585, 0x106aa070,
    0x19a4c116, 0x1e376c08, 0x2748774c, 0x34b0bcb5, 0x391c0cb3, 0x4ed8aa4a,
    0x5b9cca4f, 0x682e6ff3, 0x748f82ee, 0x78a5636f, 0x84c87814, 0x8cc70208,
    0x90befffa, 0xa4506ceb, 0xbef9a3f7, 0xc67178f2]

/-- The eight working words. -/
structure Words where
  (a b c d e f g h : Nat)

/-- The first state. -/
def initial : Words :=
  ⟨0x6a09e667, 0xbb67ae85, 0x3c6ef372, 0xa54ff53a,
    0x510e527f, 0x9b05688c, 0x1f83d9ab, 0x5be0cd19⟩

/-- One round with a round constant and a schedule word. -/
def round (s : Words) (k w : Nat) : Words :=
  let s1 := (rotr 6 s.e).xor ((rotr 11 s.e).xor (rotr 25 s.e))
  let ch := (s.e.land s.f).xor ((s.e.xor 0xffffffff).land s.g)
  let t1 := add (add (add (add s.h s1) ch) k) w
  let s0 := (rotr 2 s.a).xor ((rotr 13 s.a).xor (rotr 22 s.a))
  let maj := (s.a.land s.b).xor ((s.a.land s.c).xor (s.b.land s.c))
  ⟨add t1 (add s0 maj), s.a, s.b, s.c, add s.d t1, s.e, s.f, s.g⟩

/-- The schedule word that follows sixteen others. -/
def nextWord (w : List Nat) : Nat :=
  let w1 := w.getD 1 0
  let w14 := w.getD 14 0
  let s0 := (rotr 7 w1).xor ((rotr 18 w1).xor (w1 >>> 3))
  let s1 := (rotr 17 w14).xor ((rotr 19 w14).xor (w14 >>> 10))
  add (add (w.getD 0 0) s0) (add (w.getD 9 0) s1)

/-- The rounds of one block: `w` are the next sixteen words of its schedule. -/
def rounds : List Nat → List Nat → Words → Words
  | [], _, s => s
  | k :: ks, w, s => rounds ks (w.tail ++ [nextWord w]) (round s k (w.headD 0))

/-- The state after a block of sixteen words. -/
def compress (s : Words) (block : List Nat) : Words :=
  let t := rounds roundConstants block s
  ⟨add s.a t.a, add s.b t.b, add s.c t.c, add s.d t.d,
    add s.e t.e, add s.f t.f, add s.g t.g, add s.h t.h⟩

/-- Big-endian words of bytes. -/
def toWords : List UInt8 → List Nat
  | b0 :: b1 :: b2 :: b3 :: bs =>
    (b0.toNat * 0x1000000 + b1.toNat * 0x10000 + b2.toNat * 0x100 + b3.toNat) :: toWords bs
  | _ => []

/-- Big-endian bytes of a number, `n` of them. -/
def toBytes : Nat → Nat → List UInt8
  | 0, _ => []
  | n + 1, x => UInt8.ofNat (x / 0x100 ^ n) :: toBytes n x

/-- The message padded to whole blocks: a one bit, zeros, and its length in bits. -/
def pad (m : List UInt8) : List UInt8 :=
  m ++ 0x80 :: List.replicate ((119 - m.length % 64) % 64) 0 ++ toBytes 8 (8 * m.length)

/-- The state after the next `n` blocks. -/
def blocks : Nat → List Nat → Words → Words
  | 0, _, s => s
  | n + 1, w, s => blocks n (w.drop 16) (compress s (w.take 16))

/-- The digest of a message. -/
def sum256 (m : List UInt8) : List UInt8 :=
  let p := pad m
  let s := blocks (p.length / 64) (toWords p) initial
  [s.a, s.b, s.c, s.d, s.e, s.f, s.g, s.h].flatMap (toBytes 4)

@[simp] theorem toBytes_length (n x : Nat) : (toBytes n x).length = n := by
  induction n with
  | zero => rfl
  | succ n ih => simp [toBytes, ih]

theorem mod_eq_of_toBytes_eq {n x y : Nat} (h : toBytes n x = toBytes n y) :
    x % 0x100 ^ n = y % 0x100 ^ n := by
  induction n with
  | zero => simp [Nat.mod_one]
  | succ n ih =>
    obtain ⟨hbyte, hrest⟩ := List.cons.inj h
    have hdigit := congrArg UInt8.toNat hbyte
    rw [UInt8.toNat_ofNat', UInt8.toNat_ofNat'] at hdigit
    rw [Nat.mod_pow_succ, Nat.mod_pow_succ, ih hrest, hdigit]

@[simp] theorem sum256_length (m : List UInt8) : (sum256 m).length = 32 := by
  simp [sum256]

end KyYard.Foundation.Sha256

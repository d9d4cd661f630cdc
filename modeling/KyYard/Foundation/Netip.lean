import Mathlib.Algebra.Group.Nat.Defs
import Mathlib.Data.Fintype.Basic
import KyYard.Foundation.Text

/-!
# Internet addresses

Textual IPv4 and IPv6 addresses: `Addr.parse?` reads dotted decimal, and colon hexadecimal with at
most one `::`, an embedded IPv4 tail and a zone; `Addr.text` writes the canonical spelling, with the
longest run of zero words shortened. A `Prefix` is a network of such addresses.
-/

namespace KyYard.Foundation

/-- An address: four octets, or eight 16-bit words and a zone. -/
inductive Addr
  | v4 (octets : Fin 4 → Fin 256)
  | v6 (words : Fin 8 → Fin 65536) (zone : String)
deriving DecidableEq

namespace Addr

/-! ## Reading -/

/-- A decimal octet: no sign, no leading zero, at most 255. -/
def octet? (cs : List Char) : Option Nat :=
  match Text.decimal? cs with
  | some n => if (cs.length ≤ 1 ∨ cs.headD '0' ≠ '0') ∧ n ≤ 255 then some n else none
  | none => none

/-- Four octets separated by dots. -/
def octets? (cs : List Char) : Option (List Nat) :=
  match (cs.splitOn '.').mapM octet? with
  | some os => if os.length = 4 then some os else none
  | none => none

/-- The value of a hexadecimal digit of either case. -/
def hexValue? (c : Char) : Option Nat :=
  if '0' ≤ c ∧ c ≤ '9' then some (c.toNat - 48)
  else if 'a' ≤ c ∧ c ≤ 'f' then some (c.toNat - 87)
  else if 'A' ≤ c ∧ c ≤ 'F' then some (c.toNat - 55)
  else none

/-- The words of the rest `cs` of a colon hexadecimal text, after `seen` words. The result says
after how many words `::` stood. Each turn reads one word of one to four digits; before a dot the
rest is an IPv4 tail of two words. -/
def words? : Nat → List Nat → Option Nat → List Char → Option (List Nat × Option Nat)
  | 0, _, _, _ => none
  | fuel + 1, seen, ellipsis, cs =>
    let digits := cs.takeWhile fun c => (hexValue? c).isSome
    let rest := cs.dropWhile fun c => (hexValue? c).isSome
    if digits.isEmpty ∨ 4 < digits.length then none
    else if rest.head? = some '.' then
      if (ellipsis = none ∧ seen.length ≠ 6) ∨ 6 < seen.length then none
      else (octets? cs).map fun os =>
        (seen ++ [os.getD 0 0 * 256 + os.getD 1 0, os.getD 2 0 * 256 + os.getD 3 0], ellipsis)
    else
      let seen := seen ++ [digits.foldl (fun n c => 16 * n + (hexValue? c).getD 0) 0]
      match rest with
      | [] => some (seen, ellipsis)
      | c :: rest =>
        if c ≠ ':' ∨ rest = [] then none
        else if rest.head? = some ':' then
          if ellipsis.isSome then none
          else if rest.tail = [] then some (seen, some seen.length)
          else words? fuel seen (some seen.length) rest.tail
        else words? fuel seen ellipsis rest

/-- Eight words, `::` filled with at least one zero word. -/
def fill : List Nat × Option Nat → Option (List Nat)
  | (ws, none) => if ws.length = 8 then some ws else none
  | (ws, some i) =>
    if ws.length < 8 then some (ws.take i ++ List.replicate (8 - ws.length) 0 ++ ws.drop i)
    else none

/-- An address of eight words. -/
def ofWords (ws : List Nat) (zone : String) : Addr :=
  .v6 (fun i => Fin.ofNat 65536 (ws.getD i 0)) zone

/-- An address of four octets. -/
def ofOctets (os : List Nat) : Addr := .v4 fun i => Fin.ofNat 256 (os.getD i 0)

/-- A colon hexadecimal address, with an optional zone after `%`. -/
def parse6? (cs : List Char) : Option Addr :=
  let body := cs.takeWhile (· ≠ '%')
  let zone := cs.drop (body.length + 1)
  if body.length < cs.length ∧ zone = [] then none
  else
    let zone := String.ofList zone
    match body with
    | [':', ':'] => some (ofWords [] zone)
    | ':' :: ':' :: rest => ((words? 8 [] (some 0) rest).bind fill).map (ofWords · zone)
    | _ => ((words? 8 [] none body).bind fill).map (ofWords · zone)

/-- The address a text spells: what its first dot, colon or percent sign says. -/
def parse? (s : String) : Option Addr :=
  match s.toList.find? (fun c => c == '.' || c == ':' || c == '%') with
  | some '.' => (octets? s.toList).map ofOctets
  | some ':' => parse6? s.toList
  | _ => none

/-! ## Writing -/

/-- Octets in dotted decimal. -/
def dotted (os : List Nat) : List Char :=
  ((os.map fun o => (Text.itoa o).toList).intersperse ['.']).flatten

/-- The length of the run of zeros at the start. -/
def zeros (ws : List Nat) : Nat := (ws.takeWhile (· = 0)).length

/-- Start and length of the first longest run of at least two zero words. -/
def longestRun (ws : List Nat) : Option (Nat × Nat) :=
  (List.range ws.length).foldl (fun best i =>
    let n := zeros (ws.drop i)
    if 2 ≤ n ∧ (best.map Prod.snd).getD 0 < n then some (i, n) else best) none

/-- Words in hexadecimal, separated by colons. -/
def colonHex (ws : List Nat) : List Char :=
  ((ws.map fun w => (Text.digitsIn 16 4 w).reverse).intersperse [':']).flatten

/-- The octets of an IPv4 address inside an IPv6 one. -/
def embedded? (ws : List Nat) : Option (List Nat) :=
  match ws with
  | [0, 0, 0, 0, 0, 0xffff, a, b] => some [a / 256, a % 256, b / 256, b % 256]
  | _ => none

/-- The canonical spelling. -/
def text : Addr → String
  | .v4 os => String.ofList (dotted ((List.ofFn os).map Fin.val))
  | .v6 w zone =>
    let ws := (List.ofFn w).map Fin.val
    let body := match embedded? ws with
      | some os => "::ffff:".toList ++ dotted os
      | none => match longestRun ws with
        | some (i, n) => colonHex (ws.take i) ++ [':', ':'] ++ colonHex (ws.drop (i + n))
        | none => colonHex ws
    String.ofList body ++ (if zone = "" then "" else "%" ++ zone)

/-! ## Kinds -/

/-- The zone of an address. -/
def zone : Addr → String
  | .v4 _ => ""
  | .v6 _ z => z

/-- An IPv6 address that embeds an IPv4 one. -/
def is4In6 : Addr → Bool
  | .v4 _ => false
  | .v6 w _ => (embedded? ((List.ofFn w).map Fin.val)).isSome

/-- The IPv4 address an IPv6 one embeds, any other address itself. -/
def unmap : Addr → Addr
  | .v4 os => .v4 os
  | .v6 w z => ((embedded? ((List.ofFn w).map Fin.val)).map ofOctets).getD (.v6 w z)

/-- The address of all interfaces. -/
def isUnspecified : Addr → Bool
  | .v4 os => decide (∀ i, os i = 0)
  | .v6 w z => decide (∀ i, w i = 0) && z == ""

/-- Neither unspecified, broadcast, loopback, multicast nor link-local. -/
def isGlobalUnicast (a : Addr) : Bool :=
  match a.unmap with
  | .v4 os =>
    !a.unmap.isUnspecified && decide (¬∀ i, os i = 255) && os 0 ≠ 127 && (os 0).val / 16 ≠ 14 &&
      !(os 0 = 169 && os 1 = 254)
  | .v6 w z =>
    let loopback := decide (∀ i, w i = if i = 7 then 1 else 0)
    !(Addr.v6 w z).isUnspecified && !loopback && (w 0).val / 256 ≠ 0xff && (w 0).val / 64 ≠ 0x3fa

/-- The number of bits, and the number they are. -/
def bitLen : Addr → Nat
  | .v4 _ => 32
  | .v6 _ _ => 128

def value : Addr → Nat
  | .v4 os => (List.ofFn os).foldl (fun n o => 256 * n + o.val) 0
  | .v6 w _ => (List.ofFn w).foldl (fun n x => 65536 * n + x.val) 0

end Addr

/-! ## Networks -/

/-- The addresses that share their first bits with one. -/
structure Prefix where
  addr : Addr
  bits : Nat
  fits : bits ≤ addr.bitLen
deriving DecidableEq

/-- An address with a zone is in no network. -/
def Prefix.contains (p : Prefix) (a : Addr) : Bool :=
  a.zone == "" && a.bitLen == p.addr.bitLen &&
    a.value / 2 ^ (p.addr.bitLen - p.bits) == p.addr.value / 2 ^ (p.addr.bitLen - p.bits)

/-! ## Ports -/

/-- The host and the port around the last colon. A host in brackets may hold colons. -/
def splitHostPort? (s : String) : Option (String × String) :=
  let cs := s.toList
  let port := cs.rtakeWhile (· ≠ ':')
  let front := cs.take (cs.length - port.length - 1)
  if ':' ∉ cs then none
  else if cs.head? = some '[' then
    let host := cs.tail.takeWhile (· ≠ ']')
    if front ≠ '[' :: host ++ [']'] ∨ '[' ∈ cs.tail ∨ ']' ∈ port then none
    else some (String.ofList host, String.ofList port)
  else if ':' ∈ front ∨ '[' ∈ cs ∨ ']' ∈ cs then none
  else some (String.ofList front, String.ofList port)

end KyYard.Foundation

import Mathlib.Algebra.GroupWithZero.Nat
import KyYard.Foundation.Text

/-!
# JSON text

`Json.encode` writes a value the way an HTML-safe encoder does: no white space, the members of an
object in the order given, and in strings the escapes of quotes, backslashes, control characters,
`<`, `>`, `&` and the two Unicode line separators.
-/

namespace KyYard.Foundation

/-- A JSON value. -/
inductive Json
  | null
  | bool (b : Bool)
  | num (n : Int)
  | str (s : String)
  | arr (l : List Json)
  | obj (l : List (String × Json))

namespace Json

/-- A four digit escape. -/
def escape (n : Nat) : List Char :=
  ['\\', 'u', Text.hexDigit (n / 4096 % 16), Text.hexDigit (n / 256 % 16),
    Text.hexDigit (n / 16 % 16), Text.hexDigit (n % 16)]

/-- One character of a string. -/
def encodeChar (c : Char) : List Char :=
  if c = '"' then ['\\', '"']
  else if c = '\\' then ['\\', '\\']
  else if c = '\n' then ['\\', 'n']
  else if c = '\r' then ['\\', 'r']
  else if c = '\t' then ['\\', 't']
  else if c.toNat = 8 then ['\\', 'b']
  else if c.toNat = 12 then ['\\', 'f']
  else if c.toNat < 0x20 ∨ c = '<' ∨ c = '>' ∨ c = '&' ∨ c.toNat = 0x2028 ∨ c.toNat = 0x2029 then
    escape c.toNat
  else [c]

/-- A string with its quotes. -/
def encodeString (s : String) : List Char := '"' :: s.toList.flatMap encodeChar ++ ['"']

mutual

/-- The text of a value. -/
def encode : Json → List Char
  | null => "null".toList
  | bool b => (if b then "true" else "false").toList
  | num n => (Text.itoaInt n).toList
  | str s => encodeString s
  | arr l => '[' :: encodeItems l ++ [']']
  | obj l => '\x7b' :: encodeMembers l ++ ['\x7d']

/-- Values separated by commas. -/
def encodeItems : List Json → List Char
  | [] => []
  | [x] => encode x
  | x :: y :: l => encode x ++ ',' :: encodeItems (y :: l)

/-- Members separated by commas. -/
def encodeMembers : List (String × Json) → List Char
  | [] => []
  | [(k, x)] => encodeString k ++ ':' :: encode x
  | (k, x) :: y :: l => encodeString k ++ ':' :: encode x ++ ',' :: encodeMembers (y :: l)

end

/-- The number of bytes of the text. -/
def size (j : Json) : Nat := (j.encode.map Char.utf8Size).sum

/-- A member left out when its value is empty. -/
def omitEmpty (empty : Bool) (k : String) (j : Json) : List (String × Json) :=
  if empty then [] else [(k, j)]

end Json

end KyYard.Foundation

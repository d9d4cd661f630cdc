import KyYard.Foundation.Text
import KyYard.Foundation.Utf8

/-!
# The event-stream grammar

A stream of server-sent events is lines, and a line ends at a line feed, at a carriage return or at
the two together. A line that starts with a colon is a comment; any other one sets a field, the text
before its first colon; an empty line dispatches the event read so far. `decode` is that reading,
whatever wrote the stream: it knows the fields `event`, `data`, `id` and `retry`, drops one blank
after the colon, and dispatches nothing that has no data.

A writer that ends its lines by line feeds is read line by line (`decode_lines`).
-/

namespace KyYard.Foundation

namespace EventStream

def colon : UInt8 := 58

def space : UInt8 := 32

/-- The bytes of a text. -/
def ascii (s : String) : Bytes := Utf8.encode s.toList

/-- An event as it reaches a listener. -/
structure Event where
  name : Bytes
  data : Bytes
  id : Bytes
deriving DecidableEq

/-- The buffers of a reader, the reconnection time it was told, and the events it has dispatched. -/
structure Reader where
  name : Bytes
  data : Bytes
  id : Bytes
  retry : Option Nat
  events : List Event
deriving DecidableEq

namespace Reader

def fresh : Reader := ⟨[], [], [], none, []⟩

/-- A field and its value: what is around the first colon, less one blank after it. -/
def field (line : Bytes) : Bytes × Bytes :=
  let value := (line.dropWhile (· != colon)).tail
  (line.takeWhile (· != colon), if value.head? = some space then value.tail else value)

def set (r : Reader) (name value : Bytes) : Reader :=
  if name = ascii "event" then { r with name := value }
  else if name = ascii "data" then { r with data := r.data ++ value ++ [lf] }
  else if name = ascii "id" then if value.contains 0 then r else { r with id := value }
  else if name = ascii "retry" then
    { r with retry := (Text.decimal? (value.map fun b => Char.ofNat b.toNat)).orElse fun _ => r.retry }
  else r

/-- An empty line. An event without data is forgotten. -/
def dispatch (r : Reader) : Reader :=
  if r.data = [] then { r with name := [] }
  else
    { r with
      name := []
      data := []
      events := r.events ++
        [⟨if r.name = [] then ascii "message" else r.name, r.data.dropLast, r.id⟩] }

def line (r : Reader) (text : Bytes) : Reader :=
  if text = [] then r.dispatch
  else if text.head? = some colon then r
  else r.set (field text).1 (field text).2

end Reader

/-- A byte order mark in front of a stream is not part of it. -/
def unmarked : Bytes → Bytes
  | 0xEF :: 0xBB :: 0xBF :: s => s
  | s => s

/-- What a reader has after a stream. A line that has not ended says nothing yet. -/
def decode (s : Bytes) : Reader := (splitLines [] (unmarked s)).1.foldl Reader.line .fresh

theorem decode_lines {ls : List Bytes} (h : ∀ l ∈ ls, ∀ b ∈ l, unbroken b = true)
    (hmark : (ls.flatMap fun l => l ++ [lf]).head? ≠ some 0xEF) :
    decode (ls.flatMap fun l => l ++ [lf]) = ls.foldl Reader.line .fresh := by
  have hself : unmarked (ls.flatMap fun l => l ++ [lf]) = ls.flatMap fun l => l ++ [lf] := by
    unfold unmarked
    split
    · next s heq => exact absurd (by rw [heq]; rfl) hmark
    · rfl
  unfold decode
  rw [hself, splitLines_lines h]

/-! ## The lines of a writer -/

namespace Reader

theorem line_empty (r : Reader) : r.line [] = r.dispatch := rfl

/-- A comment says nothing. -/
theorem line_comment (r : Reader) (text : Bytes) : r.line (colon :: text) = r := by
  simp [line]

/-- A field that is written with a blank after its colon. -/
theorem line_field (r : Reader) {name : Bytes} (hname : name ≠ []) (h : colon ∉ name)
    (value : Bytes) : r.line (name ++ colon :: space :: value) = r.set name value := by
  have hother : ∀ b ∈ name, (b != colon) = true := by
    intro b hb
    rw [bne_iff_ne]
    rintro rfl
    exact h hb
  have htake : (name ++ colon :: space :: value).takeWhile (· != colon) = name := by
    rw [List.takeWhile_append_of_pos hother]
    simp
  have hdrop : (name ++ colon :: space :: value).dropWhile (· != colon) =
      colon :: space :: value := by
    rw [List.dropWhile_append_of_pos hother]
    simp
  obtain ⟨b, name, rfl⟩ := List.exists_cons_of_ne_nil hname
  have hb : b ≠ colon := by
    rintro rfl
    exact h List.mem_cons_self
  unfold line field
  rw [if_neg (by simp), if_neg (by simpa using hb), htake, hdrop]
  simp

end Reader

end EventStream

end KyYard.Foundation

import KyYard.Foundation.Lines

/-!
# UTF-8

The bytes of a text, with the one fact about them that a framing rests on: a byte below 128 is a
character of the text and no part of another one (`mem_of_mem_encode`).
-/

namespace KyYard.Foundation

namespace Utf8

/-- The bytes of a text. -/
def encode (cs : List Char) : Bytes := cs.flatMap String.utf8EncodeChar

/-- The bytes of a longer character are all above 127. -/
theorem toNat_of_mem_utf8EncodeChar {c : Char} {b : UInt8} (h : b ∈ String.utf8EncodeChar c)
    (hb : b.toNat < 128) : c.toNat = b.toNat := by
  have hc : c.toNat = c.val.toNat := rfl
  unfold String.utf8EncodeChar at h
  dsimp only at h
  split at h
  · next hv =>
    rw [List.mem_singleton.1 h, UInt8.toNat_ofNat']
    omega
  all_goals
    split at h <;> try split at h
    all_goals
      simp only [List.mem_cons, List.not_mem_nil, or_false] at h
      rcases h with rfl | rfl | rfl | rfl <;> (rw [UInt8.toNat_ofNat'] at hb; omega)

theorem mem_of_mem_encode {cs : List Char} {b : UInt8} (h : b ∈ encode cs) (hb : b.toNat < 128) :
    ∃ c ∈ cs, c.toNat = b.toNat := by
  obtain ⟨c, hc, hmem⟩ := List.mem_flatMap.1 h
  exact ⟨c, hc, toNat_of_mem_utf8EncodeChar hmem hb⟩

/-- A text without breaks has bytes without breaks. -/
theorem unbroken_encode {cs : List Char} (h : ∀ c ∈ cs, c ≠ '\n' ∧ c ≠ '\r') :
    ∀ b ∈ encode cs, unbroken b = true := by
  intro b hb
  rw [← Bool.not_eq_false, unbroken_eq_false]
  rintro (rfl | rfl)
  · obtain ⟨c, hc, heq⟩ := mem_of_mem_encode hb (by decide)
    exact (h c hc).1 (Char.toNat_inj.1 heq)
  · obtain ⟨c, hc, heq⟩ := mem_of_mem_encode hb (by decide)
    exact (h c hc).2 (Char.toNat_inj.1 heq)

end Utf8

end KyYard.Foundation

import Mathlib.Data.List.Sort
import Mathlib.Data.String.Basic

/-!
# The order of texts and the order of their bytes

Texts are compared by the code points of their characters. UTF-8 is made so that this is also the
order of the bytes that texts are written with (`bytes_lt_bytes`): of two characters, the one with
the greater code point has the greater byte where their bytes differ first, whatever comes after
them (`encode_append_lt`).
-/

set_option autoImplicit false

namespace Flowgraph.Text

open String (utf8EncodeChar)

/-- The bytes that a text is written with. -/
def bytes (s : String) : List UInt8 := s.toUTF8.data.toList

theorem bytes_eq (s : String) : bytes s = s.toList.flatMap utf8EncodeChar := by
  unfold bytes String.toUTF8
  rw [← String.utf8Encode_toList]
  simp [List.utf8Encode]

/-- Bytes are compared as the numbers that they stand for. -/
theorem cons_lt_cons {m n : Nat} {l l' : List UInt8} (hm : m < 256) (hn : n < 256) :
    UInt8.ofNat m :: l < UInt8.ofNat n :: l' ↔ m < n ∨ m = n ∧ l < l' := by
  rw [List.cons_lt_cons_iff, UInt8.lt_iff_toNat_lt, ← UInt8.toNat_inj, UInt8.toNat_ofNat',
    UInt8.toNat_ofNat', Nat.mod_eq_of_lt hm, Nat.mod_eq_of_lt hn]

theorem val_lt (c : Char) : c.val.toNat < 1114112 := by
  rcases c.valid with h | ⟨-, h⟩
  · exact Nat.lt_trans h (by decide)
  · exact h

/-- Numbers are compared by their digits, of which the longest characters have four. -/
theorem digits_lt {v v' : Nat} (h : v < v') (hv' : v' < 1114112) :
    v / 262144 % 8 < v' / 262144 % 8 ∨ v / 262144 % 8 = v' / 262144 % 8 ∧
      (v / 4096 % 64 < v' / 4096 % 64 ∨ v / 4096 % 64 = v' / 4096 % 64 ∧
        (v / 64 % 64 < v' / 64 % 64 ∨ v / 64 % 64 = v' / 64 % 64 ∧ v % 64 < v' % 64)) := by
  rcases Nat.lt_or_eq_of_le (Nat.div_le_div_right (c := 262144) h.le) with hlt | h3
  · exact Or.inl (by omega)
  refine Or.inr ⟨by rw [h3], ?_⟩
  rcases Nat.lt_or_eq_of_le (Nat.div_le_div_right (c := 4096) h.le) with hlt | h2
  · exact Or.inl (by omega)
  refine Or.inr ⟨by rw [h2], ?_⟩
  rcases Nat.lt_or_eq_of_le (Nat.div_le_div_right (c := 64) h.le) with hlt | h1
  · exact Or.inl (by omega)
  exact Or.inr ⟨by rw [h1], by omega⟩

/-- **A greater character has greater bytes**, whatever comes after them. -/
theorem encode_append_lt {c c' : Char} (h : c < c') (l l' : List UInt8) :
    utf8EncodeChar c ++ l < utf8EncodeChar c' ++ l' := by
  have hlt : c.val.toNat < c'.val.toNat := h
  have hc' : c'.val.toNat < 1114112 := val_lt c'
  have hdigits := digits_lt hlt hc'
  unfold utf8EncodeChar
  generalize c.val.toNat = v at *
  generalize c'.val.toNat = v' at *
  dsimp only
  -- by how many bytes the characters have: more bytes, greater first byte
  split_ifs <;>
    simp (disch := omega) only [List.cons_append, List.nil_append, cons_lt_cons] <;> omega

/-- **Texts have the order of their bytes.** -/
theorem bytes_lt_bytes {s t : String} (h : s < t) : bytes s < bytes t := by
  rw [bytes_eq, bytes_eq]
  rw [String.lt_iff_toList_lt] at h
  generalize s.toList = l at h
  generalize t.toList = l' at h
  induction h with
  | @nil c l' =>
    obtain ⟨b, bs, hbytes⟩ := List.exists_cons_of_ne_nil (String.utf8EncodeChar_ne_nil (c := c))
    rw [List.flatMap_cons, hbytes]
    exact List.nil_lt_cons _ _
  | cons _ ih => exact List.Lex.append_left _ ih _
  | rel h => exact encode_append_lt h _ _

end Flowgraph.Text

/-
  TokenGrammar.Proofs.Lexer.ByteOrder

  The order of texts.  Texts are compared character by character; in UTF-8 that is the
  order of their bytes, since of two characters the one with the smaller code has a
  smaller byte where the bytes of the two part (`utf8EncodeChar_append_lt`).  So
  registered words, which stand longest first, are in the order of their bytes among words
  of as many bytes (`longerFirst_iff`).
-/

import Mathlib.Data.String.Basic
import TokenGrammar.Lexer.Basic

namespace TokenGrammar

/-- The bytes of a text. -/
def utf8Bytes (text : String) : List UInt8 := text.toUTF8.data.toList

theorem utf8Bytes_eq (text : String) :
    utf8Bytes text = text.toList.flatMap String.utf8EncodeChar := by
  rw [utf8Bytes, String.toUTF8_eq_toByteArray, ← String.utf8Encode_toList, List.utf8Encode,
    List.data_toByteArray]

section Characters

variable {m n : Nat}

theorem ofNat_lt_ofNat_iff (hm : m < 256) (hn : n < 256) :
    UInt8.ofNat m < UInt8.ofNat n ↔ m < n := by
  rw [UInt8.lt_iff_toNat_lt, UInt8.toNat_ofNat', UInt8.toNat_ofNat', Nat.mod_eq_of_lt hm,
    Nat.mod_eq_of_lt hn]

theorem ofNat_eq_ofNat_iff (hm : m < 256) (hn : n < 256) :
    UInt8.ofNat m = UInt8.ofNat n ↔ m = n := by
  rw [← UInt8.toNat_inj, UInt8.toNat_ofNat', UInt8.toNat_ofNat', Nat.mod_eq_of_lt hm,
    Nat.mod_eq_of_lt hn]

/-- Of two numbers the smaller one is so up to its last digit in base 64, or it agrees with
    the other up to that digit. -/
theorem div_lt_or_mod_lt (h : m < n) :
    m / 64 < n / 64 ∨ m / 64 = n / 64 ∧ m % 64 < n % 64 := by
  omega

/-- Two codes of four bytes, by the bits that each byte has of them. -/
theorem four_digits_lt (h : m < n) (hbound : n < 2097152) :
    m / 262144 % 8 < n / 262144 % 8 ∨ m / 262144 % 8 = n / 262144 % 8 ∧
      (m / 4096 % 64 < n / 4096 % 64 ∨ m / 4096 % 64 = n / 4096 % 64 ∧
        (m / 64 % 64 < n / 64 % 64 ∨ m / 64 % 64 = n / 64 % 64 ∧ m % 64 < n % 64)) := by
  have hm : m / 262144 % 8 = m / 262144 := Nat.mod_eq_of_lt (by omega)
  have hn : n / 262144 % 8 = n / 262144 := Nat.mod_eq_of_lt (by omega)
  rw [hm, hn]
  rcases div_lt_or_mod_lt h with h | h
  · rcases div_lt_or_mod_lt h with h | h <;> rw [Nat.div_div_eq_div_mul, Nat.div_div_eq_div_mul] at h
    · rcases div_lt_or_mod_lt h with h | h <;>
        rw [Nat.div_div_eq_div_mul, Nat.div_div_eq_div_mul] at h <;> omega
    · omega
  · omega

/-- The bytes of a character with a smaller code come first, whatever follows them. -/
theorem utf8EncodeChar_append_lt {c d : Char} (h : c < d) (behind after : List UInt8) :
    String.utf8EncodeChar c ++ behind < String.utf8EncodeChar d ++ after := by
  have hcode : c.val.toNat < d.val.toNat := h
  have hvalid : d.val.toNat < 55296 ∨ 57343 < d.val.toNat ∧ d.val.toNat < 1114112 := d.valid
  unfold String.utf8EncodeChar
  dsimp only
  generalize c.val.toNat = m at *
  generalize d.val.toNat = n at *
  have hdigits := four_digits_lt hcode (by omega)
  -- A code of fewer bytes has the smaller first byte; codes of as many are told apart by digits.
  split_ifs <;> simp only [List.cons_append, List.nil_append, List.cons_lt_cons_iff] <;>
    simp (disch := omega) only [ofNat_lt_ofNat_iff, ofNat_eq_ofNat_iff] <;> omega

end Characters

/-- Texts are in the order of their bytes. -/
theorem flatMap_utf8EncodeChar_lt {text other : List Char} (h : text < other) :
    text.flatMap String.utf8EncodeChar < other.flatMap String.utf8EncodeChar := by
  induction other generalizing text with
  | nil => exact absurd h (List.not_lt_nil text)
  | cons d other ih =>
      rw [List.flatMap_cons]
      cases text with
      | nil =>
          have hne : String.utf8EncodeChar d ≠ [] := String.utf8EncodeChar_ne_nil
          obtain ⟨first, more, hfirst⟩ := List.exists_cons_of_ne_nil hne
          rw [hfirst, List.flatMap_nil]
          exact List.nil_lt_cons _ _
      | cons c text =>
          rw [List.flatMap_cons]
          rcases List.cons_lt_cons_iff.1 h with hlt | ⟨rfl, hlt⟩
          · exact utf8EncodeChar_append_lt hlt _ _
          · exact List.append_left_lt (ih hlt)

theorem lt_iff_utf8Bytes_lt {text other : String} :
    text < other ↔ utf8Bytes text < utf8Bytes other := by
  have hforward {a b : String} (h : a < b) : utf8Bytes a < utf8Bytes b := by
    rw [utf8Bytes_eq, utf8Bytes_eq]
    exact flatMap_utf8EncodeChar_lt (String.lt_iff.1 h)
  refine ⟨hforward, fun h => ?_⟩
  by_contra hnot
  rcases (String.not_lt.1 hnot).lt_or_eq with hlt | rfl
  · exact List.lt_asymm h (hforward hlt)
  · exact List.lt_irrefl _ h

/-- Registered words stand by how many bytes they have, more of them first, and words of as
    many bytes by their bytes. -/
theorem longerFirst_iff {word other : String} :
    longerFirst word other = true ↔ other.utf8ByteSize < word.utf8ByteSize ∨
      other.utf8ByteSize = word.utf8ByteSize ∧ utf8Bytes word < utf8Bytes other := by
  rw [longerFirst, Bool.or_eq_true, Bool.and_eq_true, decide_eq_true_iff, decide_eq_true_iff,
    beq_iff_eq, lt_iff_utf8Bytes_lt, eq_comm (a := word.utf8ByteSize)]

end TokenGrammar

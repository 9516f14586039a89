import Mathlib.Tactic.Common
import Playable.Text.Utf8

/-!
# Octets are read back

A character is written as one to four octets. The first one announces how many follow and bounds
the second one, so reading ends with the same character, whatever octets stand behind. A text is
read back character by character.
-/

namespace Playable.Text

variable {n b bits low high owed : Nat} {rest : List Nat}

/-! ## Steps of reading -/

/-- An octet on its own is a character. -/
theorem ofUtf8_cons_of_lt (h : b < 0x80) : ofUtf8 (b :: rest) = Char.ofNat b :: ofUtf8 rest := by
  have hlead : LeadOctet.of? b = some ⟨0, b, 0, 0⟩ := by rw [LeadOctet.of?, if_pos h]
  rw [ofUtf8, decodeFrom, if_neg (by omega), hlead]
  rfl

/-- An octet that announces others starts a character. -/
theorem ofUtf8_cons_of_lead (h : LeadOctet.of? b = some ⟨owed + 1, bits, low, high⟩) :
    ofUtf8 (b :: rest) = decodeFrom (owed + 1) bits low high rest := by
  rw [ofUtf8, decodeFrom, if_neg (by omega), h]
  rfl

/-- An octet inside of a character adds its bits. -/
theorem decodeFrom_inner (hlow : low ≤ b) (hhigh : b ≤ high) :
    decodeFrom (owed + 2) bits low high (b :: rest) =
      decodeFrom (owed + 1) (bits * 64 + (b - 0x80)) 0x80 0xBF rest := by
  rw [decodeFrom, if_pos ⟨Nat.succ_pos _, hlow, hhigh⟩, if_neg (by omega)]
  rfl

/-- The last octet of a character completes it. -/
theorem decodeFrom_last (hlow : low ≤ b) (hhigh : b ≤ high) :
    decodeFrom 1 bits low high (b :: rest) =
      Char.ofNat (bits * 64 + (b - 0x80)) :: ofUtf8 rest := by
  rw [decodeFrom, if_pos ⟨Nat.one_pos, hlow, hhigh⟩, if_pos rfl]
  rfl

/-! ## First octets -/

/-- The first of two octets. -/
theorem leadOctet_two (hlow : 0x80 ≤ n) (hhigh : n < 0x800) :
    LeadOctet.of? (0xC0 + n / 64) = some ⟨1, n / 64, 0x80, 0xBF⟩ := by
  rw [LeadOctet.of?, if_neg (by omega), if_neg (by omega), if_pos (by omega),
    Nat.add_sub_cancel_left]

/-- The first of three octets leaves out what two octets can write, and halves of surrogate
pairs. -/
theorem exists_leadOctet_three (hlow : 0x800 ≤ n) (hhigh : n < 0x10000)
    (hvalid : n < 0xD800 ∨ 0xDFFF < n) :
    ∃ low high, LeadOctet.of? (0xE0 + n / 4096) = some ⟨2, n / 4096, low, high⟩ ∧
      low ≤ 0x80 + n / 64 % 64 ∧ 0x80 + n / 64 % 64 ≤ high := by
  rw [LeadOctet.of?, if_neg (by omega), if_neg (by omega), if_neg (by omega)]
  split
  · exact ⟨0xA0, 0xBF, by rw [show n / 4096 = 0 by omega], by omega, by omega⟩
  split
  · exact ⟨0x80, 0x9F, by rw [show n / 4096 = 0xD by omega], by omega, by omega⟩
  · rw [if_pos (by omega), Nat.add_sub_cancel_left]
    exact ⟨0x80, 0xBF, rfl, by omega, by omega⟩

/-- The first of four octets leaves out what three octets can write, and what is beyond the last
character. -/
theorem exists_leadOctet_four (hlow : 0x10000 ≤ n) (hhigh : n < 0x110000) :
    ∃ low high, LeadOctet.of? (0xF0 + n / 262144) = some ⟨3, n / 262144, low, high⟩ ∧
      low ≤ 0x80 + n / 4096 % 64 ∧ 0x80 + n / 4096 % 64 ≤ high := by
  rw [LeadOctet.of?, if_neg (by omega), if_neg (by omega), if_neg (by omega), if_neg (by omega),
    if_neg (by omega), if_neg (by omega)]
  split
  · exact ⟨0x90, 0xBF, by rw [show n / 262144 = 0 by omega], by omega, by omega⟩
  split
  · rw [Nat.add_sub_cancel_left]
    exact ⟨0x80, 0xBF, rfl, by omega, by omega⟩
  · rw [if_pos (by omega)]
    exact ⟨0x80, 0x8F, by rw [show n / 262144 = 4 by omega], by omega, by omega⟩

/-! ## Characters and texts -/

/-- The octets of a character are read as the character, whatever stands behind them. -/
theorem ofUtf8_utf8Char_append (c : Char) (rest : List Nat) :
    ofUtf8 (utf8Char c ++ rest) = c :: ofUtf8 rest := by
  have hvalid : c.toNat < 0xD800 ∨ 0xDFFF < c.toNat ∧ c.toNat < 0x110000 := c.valid
  have hread : ∀ n, n = c.toNat → Char.ofNat n = c := fun n hn => hn ▸ Char.ofNat_toNat c
  simp only [utf8Char]
  split
  · rw [List.singleton_append, ofUtf8_cons_of_lt ‹_›, hread _ rfl]
  split
  · have hlead := leadOctet_two (n := c.toNat) (by omega) (by omega)
    rw [List.cons_append, List.singleton_append, ofUtf8_cons_of_lead hlead,
      decodeFrom_last (by omega) (by omega), hread _ (by omega)]
  split
  · obtain ⟨low, high, hlead, hlow, hhigh⟩ :=
      exists_leadOctet_three (n := c.toNat) (by omega) (by omega) (by omega)
    simp only [List.cons_append, List.nil_append]
    rw [ofUtf8_cons_of_lead hlead, decodeFrom_inner hlow hhigh,
      decodeFrom_last (by omega) (by omega), hread _ (by omega)]
  · obtain ⟨low, high, hlead, hlow, hhigh⟩ :=
      exists_leadOctet_four (n := c.toNat) (by omega) (by omega)
    simp only [List.cons_append, List.nil_append]
    rw [ofUtf8_cons_of_lead hlead, decodeFrom_inner hlow hhigh,
      decodeFrom_inner (by omega) (by omega), decodeFrom_last (by omega) (by omega),
      hread _ (by omega)]

/-- A text is read back from its octets. -/
theorem ofUtf8_utf8 (t : Text) : ofUtf8 (utf8 t) = t := by
  induction t with
  | nil => rfl
  | cons c t ih => rw [utf8, List.flatMap_cons, ← utf8, ofUtf8_utf8Char_append, ih]

/-- The octets of a character are numbers below 256. -/
theorem lt_of_mem_utf8Char {c : Char} (h : b ∈ utf8Char c) : b < 256 := by
  have hvalid : c.toNat < 0xD800 ∨ 0xDFFF < c.toNat ∧ c.toNat < 0x110000 := c.valid
  simp only [utf8Char] at h
  split at h
  · rw [List.mem_singleton] at h
    omega
  split at h
  · simp only [List.mem_cons, List.not_mem_nil, or_false] at h
    omega
  split at h
  · simp only [List.mem_cons, List.not_mem_nil, or_false] at h
    omega
  · simp only [List.mem_cons, List.not_mem_nil, or_false] at h
    omega

end Playable.Text

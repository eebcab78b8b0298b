import Mathlib.Data.Nat.Bitwise

/-!
# Bits of 64-bit words

A table of `uint64_t` words read and written one bit at a time: the bit `i` of a word
(`bitAt`), a bit overwritten with a mask and a shift, words combined by and, or and
exclusive or, a mask of all ones or none made from one bit by `0 - x`, and the index of
a pair of words from any position of it (`pos & ~1`, `pos | 1`). The word lemmas go
through `UInt64.toBitVec`, where each operation acts bit by bit.
-/

namespace Bits64

/-- Bit `i` of a word; bits from `64` on are clear. -/
def bitAt (w : UInt64) (i : ℕ) : Bool := w.toBitVec.getLsbD i

theorem bitAt_of_ge (w : UInt64) {i : ℕ} (hi : 64 ≤ i) : bitAt w i = false :=
  BitVec.getLsbD_of_ge w.toBitVec i hi

@[simp] theorem bitAt_zero (i : ℕ) : bitAt 0 i = false := by
  simp [bitAt]

theorem bitAt_or (a b : UInt64) (i : ℕ) : bitAt (a ||| b) i = (bitAt a i || bitAt b i) := by
  simp only [bitAt, UInt64.toBitVec_or, BitVec.getLsbD_or]

/-- `(w & ~(1 << b)) | (x << b)` with `x` a bit: bit `b` becomes `x`, the others stay. -/
theorem bitAt_setBit (w x b : UInt64) (hb : b.toNat < 64) (hx : x = 0 ∨ x = 1) (i : ℕ) :
    bitAt ((w &&& ~~~((1 : UInt64) <<< b)) ||| (x <<< b)) i =
      if i = b.toNat then decide (x = 1) else bitAt w i := by
  unfold bitAt
  simp only [UInt64.toBitVec_or, UInt64.toBitVec_and, UInt64.toBitVec_shiftLeft, UInt64.toBitVec_not,
    BitVec.getLsbD_or, BitVec.getLsbD_and, BitVec.getLsbD_not]
  by_cases h64 : i < 64
  case pos =>
    by_cases hi : i = b.toNat
    case pos =>
      subst hi
      rcases hx with rfl | rfl <;> simp [hb, Nat.mod_eq_of_lt hb]
    case neg =>
      -- away from bit `b` the shifted bit is clear and the mask is set
      have hshift : i < b.toNat ∨ i - b.toNat ≠ 0 := by omega
      rcases hx with rfl | rfl <;> rcases hshift with h | h <;> simp [hi, h64, Nat.mod_eq_of_lt hb, h]
  case neg =>
    -- above the word nothing is set
    have hw := BitVec.getLsbD_of_ge w.toBitVec i (by omega)
    simp [h64, hw, show i ≠ b.toNat by omega]

/-- `0 - x` with `x` a bit: every bit set, or none. -/
theorem bitAt_zero_sub (x : UInt64) (hx : x = 0 ∨ x = 1) (i : ℕ) :
    bitAt (0 - x) i = (decide (i < 64) && decide (x = 1)) := by
  unfold bitAt
  rcases hx with rfl | rfl
  · simp
  · have h : (0 - 1 : UInt64).toBitVec = BitVec.allOnes 64 := by decide
    rw [h, BitVec.getLsbD_allOnes]
    simp

/-- A word kept where one of two words differs from its pattern. -/
theorem bitAt_and_xor_or_xor (p p1 p2 m1 m2 : UInt64) (i : ℕ) :
    bitAt (p &&& ((p1 ^^^ m1) ||| (p2 ^^^ m2))) i =
      (bitAt p i && (bitAt p1 i != bitAt m1 i || bitAt p2 i != bitAt m2 i)) := by
  simp only [bitAt, UInt64.toBitVec_or, UInt64.toBitVec_and, UInt64.toBitVec_xor, BitVec.getLsbD_or,
    BitVec.getLsbD_and, BitVec.getLsbD_xor, bne]

/-- The test `((x >> b) & 1) != 0` reads bit `b`. -/
theorem shiftRight_and_one_ne_zero (x b : UInt64) (hb : b.toNat < 64) :
    ((x >>> b) &&& 1 != 0) = bitAt x b.toNat := by
  have hnat : ((x >>> b) &&& 1).toNat = x.toNat >>> b.toNat &&& 1 := by
    simp [UInt64.toNat_and, UInt64.toNat_shiftRight, Nat.mod_eq_of_lt hb]
  unfold bitAt
  rw [BitVec.getLsbD, UInt64.toNat_toBitVec, Nat.testBit, Nat.and_comm 1, ← hnat]
  cases h : ((x >>> b) &&& 1 : UInt64) == 0 <;> simp_all [bne, ← UInt64.toNat_inj]

/-- `pos & ~1` for a 32-bit `pos`: the even position of its pair. -/
theorem and_not_one {pos : ℕ} (hpos : pos < 2 ^ 32) : pos &&& 0xFFFFFFFE = 2 * (pos / 2) := by
  apply Nat.eq_of_testBit_eq
  intro i
  rw [Nat.testBit_and, show (0xFFFFFFFE : ℕ) = (2 ^ 31 - 1) * 2 ^ 1 from rfl, Nat.testBit_mul_two_pow,
    Nat.testBit_two_pow_sub_one, Nat.mul_comm 2, ← pow_one 2, Nat.testBit_mul_two_pow, Nat.testBit_div_two_pow]
  rcases Nat.lt_or_ge i 1 with hi | hi
  · simp [show ¬ 1 ≤ i by omega]
  · rw [Nat.sub_add_cancel hi]
    by_cases h32 : i < 32
    · simp [hi, show i - 1 < 31 by omega]
    · have hhigh : pos < 2 ^ i := lt_of_lt_of_le hpos (Nat.pow_le_pow_right (by decide) (by omega))
      simp [hi, Nat.testBit_lt_two_pow hhigh]

/-- `pos | 1`: the odd position of its pair. -/
theorem or_one (pos : ℕ) : pos ||| 1 = 2 * (pos / 2) + 1 := by
  have hsplit : pos = (pos / 2) <<< 1 ||| pos % 2 := by
    rw [← Nat.shiftLeft_add_eq_or_of_lt (Nat.mod_lt _ (by decide)), Nat.shiftLeft_eq]
    omega
  have hlow : pos % 2 ||| 1 = 1 := by
    rcases Nat.mod_two_eq_zero_or_one pos with h | h <;> rw [h] <;> rfl
  conv_lhs => rw [hsplit]
  rw [Nat.or_assoc, hlow, ← Nat.shiftLeft_add_eq_or_of_lt (by decide : 1 < 2 ^ 1), Nat.shiftLeft_eq]
  omega

end Bits64

import BitcoinPQ.Models.Arith.BaseUint

/-!
# The compact encoding of targets

`arith_uint256::SetCompact` and `GetCompact` (`arith_uint256.cpp`): a 32-bit compact
number holds a size `nSize` in its top byte, a sign in bit 23 and a 23-bit mantissa
`nWord` below, for the value `nWord * 256^(nSize - 3)`.

What the encoding keeps is stated first on natural numbers (`Compact`): `GetCompact`
keeps the three most significant base-256 digits of a value, or two where the third
would set the sign bit, and decoding that truncates the value to them. The model's
`SetCompact` and `GetCompact` are then shown to compute these, and the round trips
follow: decoding an encoding gives the truncated value with both flags clear, and a
value decoded without a flag re-encodes to itself.
-/

namespace BitcoinPQ

namespace Compact

/-! ## Base-256 digits -/

/-- The number of significant base-256 digits of `x`. -/
def byteLength (x : ℕ) : ℕ := (x.size + 7) / 8

theorem byteLength_le_iff {x n : ℕ} : byteLength x ≤ n ↔ x < 256 ^ n := by
  have h256 : (256 : ℕ) ^ n = 2 ^ (8 * n) := by rw [pow_mul]; norm_num
  rw [h256, ← Nat.size_le, byteLength]
  omega

theorem lt_pow_byteLength (x : ℕ) : x < 256 ^ byteLength x :=
  byteLength_le_iff.1 le_rfl

/-- `x` with all but its `k` most significant base-256 digits cleared. -/
def truncBytes (k x : ℕ) : ℕ :=
  x / 256 ^ (byteLength x - k) * 256 ^ (byteLength x - k)

theorem truncBytes_le (k x : ℕ) : truncBytes k x ≤ x :=
  Nat.div_mul_le_self _ _

theorem truncBytes_of_byteLength_le {k x : ℕ} (h : byteLength x ≤ k) : truncBytes k x = x := by
  rw [truncBytes, Nat.sub_eq_zero_of_le h, pow_zero, Nat.div_one, Nat.mul_one]

/-- The mantissa `GetCompact` starts from: the three most significant base-256 digits of
`x`, with zero digits below where `x` has fewer. -/
def mantissa (x : ℕ) : ℕ :=
  if byteLength x ≤ 3 then x * 256 ^ (3 - byteLength x) else x / 256 ^ (byteLength x - 3)

theorem mantissa_lt (x : ℕ) : mantissa x < 2 ^ 24 := by
  have hx := lt_pow_byteLength x
  rw [mantissa, show (2 : ℕ) ^ 24 = 256 ^ 3 by norm_num]
  split
  · next h =>
    calc x * 256 ^ (3 - byteLength x) < 256 ^ byteLength x * 256 ^ (3 - byteLength x) :=
          Nat.mul_lt_mul_of_pos_right hx (by positivity)
      _ = 256 ^ 3 := by rw [← pow_add, Nat.add_sub_cancel' h]
  · next h =>
    rw [Nat.div_lt_iff_lt_mul (by positivity), ← pow_add, Nat.add_sub_cancel' (by omega)]
    exact hx

/-- The size and the mantissa `GetCompact` encodes `x` by: a mantissa with bit 23, the
sign bit, moves down a byte and the size up one. -/
def encode (x : ℕ) : ℕ × ℕ :=
  if mantissa x < 2 ^ 23 then (byteLength x, mantissa x) else (byteLength x + 1, mantissa x / 256)

/-- The value `SetCompact` decodes a size and a mantissa to, before it is taken modulo
`2^256`. -/
def decode (nSize nWord : ℕ) : ℕ :=
  if nSize ≤ 3 then nWord / 256 ^ (3 - nSize) else nWord * 256 ^ (nSize - 3)

theorem encode_snd_lt (x : ℕ) : (encode x).2 < 2 ^ 23 := by
  have hm := mantissa_lt x
  rw [encode]
  split
  · next h => exact h
  · exact (Nat.div_lt_iff_lt_mul (by norm_num)).2 (by omega)

theorem encode_fst_le {x : ℕ} (hx : x < 2 ^ 256) : (encode x).1 ≤ 33 := by
  have hn : byteLength x ≤ 32 := byteLength_le_iff.2 (by norm_num; exact hx)
  rw [encode]
  split <;> dsimp only <;> omega

/-- Only a renormalised mantissa of a 32-digit value gets size 33, and it has two digits. -/
theorem encode_snd_le_of_fst {x : ℕ} (hx : x < 2 ^ 256) (h : (encode x).1 = 33) : (encode x).2 ≤ 0xffff := by
  have hn : byteLength x ≤ 32 := byteLength_le_iff.2 (by norm_num; exact hx)
  have hm := mantissa_lt x
  rw [encode] at h ⊢
  split at h
  · dsimp only at h
    omega
  · rw [if_neg (by assumption)]
    exact Nat.le_of_lt_succ ((Nat.div_lt_iff_lt_mul (by norm_num)).2 (by omega))

/-- Decoding an encoding truncates to three base-256 digits, or two where the mantissa
was renormalised. -/
theorem decode_encode (x : ℕ) :
    decode (encode x).1 (encode x).2 = truncBytes (if mantissa x < 2 ^ 23 then 3 else 2) x := by
  rw [encode]
  by_cases hm : mantissa x < 2 ^ 23
  · rw [if_pos hm, if_pos hm, decode, mantissa]
    by_cases hn : byteLength x ≤ 3
    · -- a short value: its digits are shifted up and back down
      rw [if_pos hn, if_pos hn, Nat.mul_div_cancel _ (by positivity), truncBytes_of_byteLength_le hn]
    · rw [if_neg hn, if_neg hn]
      rfl
  · rw [if_neg hm, if_neg hm, decode, mantissa]
    by_cases hn : byteLength x ≤ 2
    · -- the renormalised mantissa still decodes by a shift down
      rw [if_pos (by omega), if_pos (by omega), truncBytes_of_byteLength_le hn,
        show 3 - byteLength x = 3 - (byteLength x + 1) + 1 by omega, pow_succ, ← Nat.mul_assoc,
        Nat.mul_div_cancel _ (by norm_num), Nat.mul_div_cancel _ (by positivity)]
    · rw [if_neg (by omega), truncBytes, show byteLength x + 1 - 3 = byteLength x - 2 by omega]
      by_cases h3 : byteLength x ≤ 3
      · -- three digits: the lowest one is dropped
        rw [if_pos h3, show 3 - byteLength x = 0 by omega, show byteLength x - 2 = 1 by omega, pow_zero,
          Nat.mul_one, pow_one]
      · rw [if_neg h3, Nat.div_div_eq_div_mul, ← pow_succ, show byteLength x - 3 + 1 = byteLength x - 2 by omega]

/-- Where `x` is a mantissa below `2^23` moved up by whole digits, truncation to three
digits keeps it, and to two digits where its three-digit mantissa has the sign bit. -/
theorem truncBytes_mul_pow {w e : ℕ} (hw : w < 2 ^ 23) :
    truncBytes (if mantissa (w * 256 ^ e) < 2 ^ 23 then 3 else 2) (w * 256 ^ e) = w * 256 ^ e := by
  have hlen : byteLength (w * 256 ^ e) ≤ 3 + e := by
    rw [byteLength_le_iff, pow_add]
    exact Nat.mul_lt_mul_of_pos_right (by omega) (by positivity)
  split
  · -- three digits: what is cleared is below `256^e`
    exact Nat.div_mul_cancel (Dvd.dvd.mul_left (Nat.pow_dvd_pow 256 (by omega)) w)
  · next hm =>
    -- with all `3 + e` digits the mantissa would be `w` itself
    have hlen' : byteLength (w * 256 ^ e) ≤ 2 + e := by
      by_contra hgt
      apply hm
      have heq : byteLength (w * 256 ^ e) = 3 + e := by omega
      rw [mantissa, heq]
      split
      · next h3 =>
        have he : e = 0 := by omega
        subst he
        simpa using hw
      · rw [Nat.add_sub_cancel_left, Nat.mul_div_cancel _ (by positivity)]
        exact hw
    exact Nat.div_mul_cancel (Dvd.dvd.mul_left (Nat.pow_dvd_pow 256 (by omega)) w)

/-- A decoded value is a mantissa below `2^23` moved up by whole digits. -/
theorem exists_decode_eq (nSize : ℕ) {nWord : ℕ} (hw : nWord < 2 ^ 23) :
    ∃ w e, w < 2 ^ 23 ∧ decode nSize nWord = w * 256 ^ e := by
  rw [decode]
  split
  · exact ⟨nWord / 256 ^ (3 - nSize), 0, Nat.lt_of_le_of_lt (Nat.div_le_self _ _) hw, by rw [pow_zero, Nat.mul_one]⟩
  · exact ⟨nWord, nSize - 3, hw, rfl⟩

end Compact

namespace arith_uint256

open BitcoinPQ.Compact

/-! ## The model -/

/-- `arith_uint256::SetCompact(nCompact, pfNegative, pfOverflow)`: the value, then
`*pfNegative` and `*pfOverflow`. -/
def SetCompact (nCompact : UInt32) : arith_uint256 × Bool × Bool :=
  let nSize := (nCompact >>> 24).toNat
  let nWord := nCompact &&& 0x007fffff
  -- a size of three or less shifts the mantissa down, a larger one the value up
  let nWord := if nSize ≤ 3 then nWord >>> UInt32.ofNat (8 * (3 - nSize)) else nWord
  let value : arith_uint256 :=
    if nSize ≤ 3 then base_uint.ofUInt64 nWord.toUInt64
    else (base_uint.ofUInt64 nWord.toUInt64).shiftLeft (8 * (nSize - 3))
  let fNegative := nWord != 0 && (nCompact &&& 0x00800000) != 0
  let fOverflow := nWord != 0 && (decide (nSize > 34) || decide (nWord > 0xff) && decide (nSize > 33) ||
    decide (nWord > 0xffff) && decide (nSize > 32))
  (value, fNegative, fOverflow)

/-- `arith_uint256::GetCompact(fNegative)`. -/
def GetCompact (a : arith_uint256) (fNegative : Bool) : UInt32 :=
  let nSize := (a.bits + 7) / 8
  let nCompact : UInt32 :=
    if nSize ≤ 3 then (a.GetLow64 <<< UInt64.ofNat (8 * (3 - nSize))).toUInt32
    else (a.shiftRight (8 * (nSize - 3))).GetLow64.toUInt32
  -- the 0x00800000 bit is the sign: a mantissa that has it moves down a byte
  let renorm := nCompact &&& 0x00800000 != 0
  let nCompact := if renorm then nCompact >>> 8 else nCompact
  let nSize := if renorm then nSize + 1 else nSize
  let nCompact := nCompact ||| (UInt32.ofNat nSize <<< 24)
  nCompact ||| (if fNegative && nCompact &&& 0x007fffff != 0 then 0x00800000 else 0)

/-! ## What the model computes -/

theorem toNat_shiftRight_24 (c : UInt32) : (c >>> 24).toNat = c.toNat / 2 ^ 24 := by
  rw [UInt32.toNat_shiftRight, Nat.shiftRight_eq_div_pow]
  rfl

theorem toNat_and_mantissa_mask (c : UInt32) : (c &&& 0x007fffff).toNat = c.toNat % 2 ^ 23 := by
  rw [UInt32.toNat_and, show (0x007fffff : UInt32).toNat = 2 ^ 23 - 1 from rfl, Nat.and_two_pow_sub_one_eq_mod]

/-- The mantissa of `SetCompact`, after the shift down of a short size. -/
theorem toNat_SetCompact_nWord (c : UInt32) :
    (if (c >>> 24).toNat ≤ 3 then (c &&& 0x007fffff) >>> UInt32.ofNat (8 * (3 - (c >>> 24).toNat))
      else c &&& 0x007fffff).toNat =
      if c.toNat / 2 ^ 24 ≤ 3 then decode (c.toNat / 2 ^ 24) (c.toNat % 2 ^ 23) else c.toNat % 2 ^ 23 := by
  rw [toNat_shiftRight_24]
  split
  · next h =>
    rw [decode, if_pos h, UInt32.toNat_shiftRight, toNat_and_mantissa_mask, UInt32.toNat_ofNat',
      Nat.mod_eq_of_lt (show 8 * (3 - c.toNat / 2 ^ 24) < 2 ^ 32 by omega),
      Nat.mod_eq_of_lt (show 8 * (3 - c.toNat / 2 ^ 24) < 32 by omega), Nat.shiftRight_eq_div_pow, pow_mul]
    rfl
  · exact toNat_and_mantissa_mask c

/-- `SetCompact`'s value: the decoded mantissa, modulo `2^256`. -/
theorem toNat_SetCompact (c : UInt32) :
    (SetCompact c).1.toNat = decode (c.toNat / 2 ^ 24) (c.toNat % 2 ^ 23) % 2 ^ 256 := by
  have hword := toNat_SetCompact_nWord c
  have h256 : ((2 : ℕ) ^ 32) ^ 8 = 2 ^ 256 := by norm_num
  simp only [SetCompact]
  rw [toNat_shiftRight_24] at hword ⊢
  split
  · next h =>
    rw [if_pos h, if_pos h] at hword
    have hlt : decode (c.toNat / 2 ^ 24) (c.toNat % 2 ^ 23) < 2 ^ 256 := by
      rw [decode, if_pos h]
      exact Nat.lt_of_le_of_lt (Nat.div_le_self _ _) (Nat.lt_trans (Nat.mod_lt _ (by norm_num)) (by norm_num))
    rw [base_uint.toNat_ofUInt64 (by norm_num), UInt32.toNat_toUInt64, hword, Nat.mod_eq_of_lt hlt]
  · next h =>
    rw [if_neg h, if_neg h] at hword
    rw [decode, if_neg h, base_uint.toNat_shiftLeft, base_uint.toNat_ofUInt64 (by norm_num), UInt32.toNat_toUInt64,
      hword, h256, pow_mul]
    rfl

/-- `nCompact & 0x00800000` tests the sign bit. -/
theorem bne_sign_bit (c : UInt32) : ((c &&& 0x00800000) != 0) = c.toNat.testBit 23 := by
  rw [Bool.eq_iff_iff, bne_iff_ne, ne_eq, ← UInt32.toNat_inj, UInt32.toNat_and,
    show (0x00800000 : UInt32).toNat = 2 ^ 23 from rfl, Nat.and_two_pow, UInt32.toNat_zero]
  cases c.toNat.testBit 23 <;> simp

/-- The mantissa of `SetCompact` after the shift is zero exactly when the decoded value is. -/
theorem SetCompact_nWord_bne_zero (c : UInt32) :
    ((if (c >>> 24).toNat ≤ 3 then (c &&& 0x007fffff) >>> UInt32.ofNat (8 * (3 - (c >>> 24).toNat))
      else c &&& 0x007fffff) != 0) = decide (decode (c.toNat / 2 ^ 24) (c.toNat % 2 ^ 23) ≠ 0) := by
  rw [Bool.eq_iff_iff, bne_iff_ne, decide_eq_true_iff, ne_eq, ne_eq, ← UInt32.toNat_inj, toNat_SetCompact_nWord,
    UInt32.toNat_zero, decode]
  split
  · rfl
  · -- a size above three: the value is the mantissa moved up
    rw [Nat.mul_eq_zero, or_iff_left (by positivity)]

/-- `*pfNegative`: a nonzero mantissa with the sign bit. -/
theorem SetCompact_fNegative (c : UInt32) :
    (SetCompact c).2.1 = (decide (decode (c.toNat / 2 ^ 24) (c.toNat % 2 ^ 23) ≠ 0) && c.toNat.testBit 23) := by
  have hword := toNat_SetCompact_nWord c
  simp only [SetCompact]
  rw [bne_sign_bit, SetCompact_nWord_bne_zero]

/-- `*pfOverflow`: a nonzero value whose mantissa is too long for its size. The size
tests fail for a size of three or less, so the unshifted mantissa can stand in them. -/
theorem SetCompact_fOverflow (c : UInt32) :
    (SetCompact c).2.2 = (decide (decode (c.toNat / 2 ^ 24) (c.toNat % 2 ^ 23) ≠ 0) &&
      (decide (34 < c.toNat / 2 ^ 24) || decide (0xff < c.toNat % 2 ^ 23) && decide (33 < c.toNat / 2 ^ 24) ||
        decide (0xffff < c.toNat % 2 ^ 23) && decide (32 < c.toNat / 2 ^ 24))) := by
  simp only [SetCompact]
  rw [SetCompact_nWord_bne_zero]
  congr 1
  simp only [gt_iff_lt, UInt32.lt_iff_toNat_lt, toNat_shiftRight_24]
  rw [show (0xff : UInt32).toNat = 0xff from rfl, show (0xffff : UInt32).toNat = 0xffff from rfl]
  split
  · -- a size of three or less: no size test holds
    next h =>
    rw [decide_eq_false (by omega : ¬34 < c.toNat / 2 ^ 24), decide_eq_false (by omega : ¬33 < c.toNat / 2 ^ 24),
      decide_eq_false (by omega : ¬32 < c.toNat / 2 ^ 24)]
    simp only [Bool.and_false, Bool.or_false]
  · rw [toNat_and_mantissa_mask]

/-- A mantissa below `256^j` moved up `k ≤ 32 - j` digits stays below `2^256`. -/
theorem mul_pow_lt_of_lt {w j k : ℕ} (hw : w < 256 ^ j) (hk : k + j ≤ 32) : w * 256 ^ k < 2 ^ 256 :=
  calc w * 256 ^ k < 256 ^ j * 256 ^ k := Nat.mul_lt_mul_of_pos_right hw (by positivity)
    _ = 256 ^ (k + j) := by rw [← pow_add, Nat.add_comm]
    _ ≤ 256 ^ 32 := Nat.pow_le_pow_right (by norm_num) hk
    _ = 2 ^ 256 := by norm_num

/-- Without the overflow flag the decoded value is below `2^256`: `SetCompact` takes it
whole. -/
theorem decode_lt_of_fOverflow (c : UInt32) (h : (SetCompact c).2.2 = false) :
    decode (c.toNat / 2 ^ 24) (c.toNat % 2 ^ 23) < 2 ^ 256 := by
  rw [SetCompact_fOverflow] at h
  have hw : c.toNat % 2 ^ 23 < 2 ^ 23 := Nat.mod_lt _ (by norm_num)
  by_cases hz : decode (c.toNat / 2 ^ 24) (c.toNat % 2 ^ 23) = 0
  · rw [hz]
    norm_num
  rw [decide_eq_true hz, Bool.true_and] at h
  simp only [Bool.or_eq_false_iff, Bool.and_eq_false_iff, decide_eq_false_iff_not, Nat.not_lt] at h
  obtain ⟨⟨h34, h33⟩, h32⟩ := h
  rw [decode]
  split
  · exact Nat.lt_of_le_of_lt (Nat.div_le_self _ _) (by omega)
  · -- by the size, one, two or three digits of mantissa
    by_cases hs : c.toNat / 2 ^ 24 ≤ 32
    · exact mul_pow_lt_of_lt (j := 3) (by norm_num; omega) (by omega)
    by_cases hs' : c.toNat / 2 ^ 24 = 33
    · exact mul_pow_lt_of_lt (j := 2) (by norm_num; omega) (by omega)
    · exact mul_pow_lt_of_lt (j := 1) (by norm_num; omega) (by omega)

/-- Without the overflow flag the decoded value leaves room for one more: it is a
mantissa below `2^23`, or a multiple of `256`. -/
theorem toNat_SetCompact_add_one_lt (c : UInt32) (h : (SetCompact c).2.2 = false) :
    (SetCompact c).1.toNat + 1 < 2 ^ 256 := by
  have hlt := decode_lt_of_fOverflow c h
  obtain ⟨w, e, hw, hdec⟩ := exists_decode_eq (c.toNat / 2 ^ 24) (Nat.mod_lt c.toNat (by norm_num : 0 < 2 ^ 23))
  rw [toNat_SetCompact, Nat.mod_eq_of_lt hlt, hdec]
  rw [hdec] at hlt
  cases e with
  | zero =>
    rw [pow_zero, Nat.mul_one]
    omega
  | succ e =>
    -- an even value, while `2^256 - 1` is odd
    have heven : 2 ∣ w * 256 ^ (e + 1) := Dvd.dvd.mul_left (dvd_pow (by norm_num : 2 ∣ 256) (Nat.succ_ne_zero e)) w
    omega

/-- A compact number that `GetCompact` writes: a mantissa below `2^23` under a size of at
most 33, with at most two digits of mantissa at size 33. -/
theorem SetCompact_flags_of_encoded {m n : ℕ} (hm : m < 2 ^ 23) (hn : n ≤ 33) (h33 : n = 33 → m ≤ 0xffff) :
    (SetCompact (UInt32.ofNat (m + 2 ^ 24 * n))).2 = (false, false) := by
  have hc : (UInt32.ofNat (m + 2 ^ 24 * n)).toNat = m + 2 ^ 24 * n := UInt32.toNat_ofNat_of_lt' (by
    show m + 2 ^ 24 * n < 2 ^ 32
    omega)
  have hsize : (m + 2 ^ 24 * n) / 2 ^ 24 = n := by omega
  have hword : (m + 2 ^ 24 * n) % 2 ^ 23 = m := by omega
  have hbit : (m + 2 ^ 24 * n).testBit 23 = false := by
    rw [Nat.testBit_eq_decide_div_mod_eq, decide_eq_false]
    omega
  rw [Prod.ext_iff]
  refine ⟨?_, ?_⟩
  · rw [SetCompact_fNegative, hc, hbit, Bool.and_false]
  · rw [SetCompact_fOverflow, hc, hsize, hword]
    simp only [Bool.and_eq_false_iff, Bool.or_eq_false_iff, decide_eq_false_iff_not, Nat.not_lt]
    right
    omega

/-- The mantissa `GetCompact` reads off a value, before renormalisation. -/
theorem toNat_GetCompact_mantissa (a : arith_uint256) :
    (if (a.bits + 7) / 8 ≤ 3 then (a.GetLow64 <<< UInt64.ofNat (8 * (3 - (a.bits + 7) / 8))).toUInt32
      else (a.shiftRight (8 * ((a.bits + 7) / 8 - 3))).GetLow64.toUInt32).toNat = mantissa a.toNat := by
  have hn : (a.bits + 7) / 8 = byteLength a.toNat := by rw [base_uint.bits_eq]; rfl
  have hm := mantissa_lt a.toNat
  have hx := lt_pow_byteLength a.toNat
  rw [hn, mantissa]
  split
  · next h =>
    -- a short value: its low word moved up
    have hx3 : a.toNat < 2 ^ 64 :=
      Nat.lt_of_lt_of_le hx (Nat.le_trans (Nat.pow_le_pow_right (by norm_num) h) (by norm_num))
    rw [mantissa, if_pos h] at hm
    rw [UInt64.toNat_toUInt32, UInt64.toNat_shiftLeft, base_uint.toNat_GetLow64 (by norm_num), UInt64.toNat_ofNat',
      Nat.mod_eq_of_lt hx3, Nat.mod_eq_of_lt (show 8 * (3 - byteLength a.toNat) < 2 ^ 64 by omega),
      Nat.mod_eq_of_lt (show 8 * (3 - byteLength a.toNat) < 64 by omega), Nat.shiftLeft_eq, pow_mul,
      show (2 : ℕ) ^ 8 = 256 from rfl, Nat.mod_eq_of_lt (by omega), Nat.mod_eq_of_lt (by omega)]
  · next h =>
    rw [mantissa, if_neg h] at hm
    rw [UInt64.toNat_toUInt32, base_uint.toNat_GetLow64 (by norm_num), base_uint.toNat_shiftRight, pow_mul,
      show (2 : ℕ) ^ 8 = 256 from rfl, Nat.mod_eq_of_lt (Nat.lt_trans hm (by norm_num)),
      Nat.mod_eq_of_lt (Nat.lt_trans hm (by norm_num))]

/-- A mantissa below `2^24` under a size byte. -/
theorem toNat_or_size {m : UInt32} {n : ℕ} (hm : m.toNat < 2 ^ 24) (hn : n < 256) :
    (m ||| UInt32.ofNat n <<< 24).toNat = m.toNat + 2 ^ 24 * n := by
  have hn' : n * 2 ^ 24 < 2 ^ 32 := by omega
  rw [UInt32.toNat_or, UInt32.toNat_shiftLeft, UInt32.toNat_ofNat', Nat.mod_eq_of_lt (by omega : n < 2 ^ 32),
    show (24 : UInt32).toNat % 32 = 24 from rfl, Nat.shiftLeft_eq, Nat.mod_eq_of_lt hn', Nat.lor_comm,
    ← Nat.shiftLeft_eq, Digits.mul_two_pow_or_of_lt _ hm]
  ring

/-- `GetCompact(false)`: the mantissa of the encoding in the low 23 bits, its size in the
top byte. -/
theorem toNat_GetCompact (a : arith_uint256) :
    (GetCompact a false).toNat = (encode a.toNat).2 + 2 ^ 24 * (encode a.toNat).1 := by
  have hn : (a.bits + 7) / 8 = byteLength a.toNat := by rw [base_uint.bits_eq]; rfl
  have hlen : byteLength a.toNat ≤ 32 :=
    byteLength_le_iff.2 (Nat.lt_of_lt_of_le a.toNat_lt (by norm_num))
  have hm := mantissa_lt a.toNat
  have hc0 := toNat_GetCompact_mantissa a
  simp only [GetCompact]
  generalize (if (a.bits + 7) / 8 ≤ 3 then (a.GetLow64 <<< UInt64.ofNat (8 * (3 - (a.bits + 7) / 8))).toUInt32
      else (a.shiftRight (8 * ((a.bits + 7) / 8 - 3))).GetLow64.toUInt32) = c0 at hc0 ⊢
  rw [hn, bne_sign_bit, hc0]
  simp only [Bool.false_and, Bool.false_eq_true, if_false, UInt32.or_zero]
  rw [encode]
  by_cases hsign : mantissa a.toNat < 2 ^ 23
  · -- no renormalisation
    rw [Nat.testBit_lt_two_pow hsign, if_neg Bool.false_ne_true, if_neg Bool.false_ne_true, if_pos hsign,
      toNat_or_size (by omega) (by omega), hc0]
  · -- the sign bit is set: the mantissa moves down a byte
    have hbit : (mantissa a.toNat).testBit 23 = true :=
      Nat.testBit_of_two_pow_le_and_two_pow_add_one_gt (by omega) hm
    have hshift : (c0 >>> 8).toNat = mantissa a.toNat / 256 := by
      rw [UInt32.toNat_shiftRight, hc0, Nat.shiftRight_eq_div_pow]
      rfl
    rw [hbit, if_pos rfl, if_pos rfl, if_neg hsign, toNat_or_size (by omega) (by omega), hshift]

theorem GetCompact_eq_ofNat {a : arith_uint256} :
    GetCompact a false = UInt32.ofNat ((encode a.toNat).2 + 2 ^ 24 * (encode a.toNat).1) := by
  have hm := encode_snd_lt a.toNat
  have hn := encode_fst_le (Nat.lt_of_lt_of_le a.toNat_lt (by norm_num))
  apply UInt32.toNat_inj.1
  rw [toNat_GetCompact, UInt32.toNat_ofNat_of_lt' (by show _ < 2 ^ 32; omega)]

/-- Decoding `GetCompact`'s output truncates the value. -/
theorem toNat_SetCompact_GetCompact (a : arith_uint256) :
    (SetCompact (GetCompact a false)).1.toNat = truncBytes (if mantissa a.toNat < 2 ^ 23 then 3 else 2) a.toNat := by
  have hm := encode_snd_lt a.toNat
  have hn := encode_fst_le (Nat.lt_of_lt_of_le a.toNat_lt (by norm_num))
  have hlt : truncBytes (if mantissa a.toNat < 2 ^ 23 then 3 else 2) a.toNat < 2 ^ 256 :=
    Nat.lt_of_le_of_lt (truncBytes_le _ _) (Nat.lt_of_lt_of_le a.toNat_lt (by norm_num))
  rw [toNat_SetCompact, GetCompact_eq_ofNat, UInt32.toNat_ofNat_of_lt' (by show _ < 2 ^ 32; omega),
    show ((encode a.toNat).2 + 2 ^ 24 * (encode a.toNat).1) / 2 ^ 24 = (encode a.toNat).1 by omega,
    show ((encode a.toNat).2 + 2 ^ 24 * (encode a.toNat).1) % 2 ^ 23 = (encode a.toNat).2 by omega,
    decode_encode, Nat.mod_eq_of_lt hlt]

/-- The compact encoding of `arith_uint256`: `GetCompact` then `SetCompact` raises no flag
and gives the value truncated to its three most significant base-256 digits, or two
where the mantissa has the sign bit, so no more than the value and the value itself
when it has no more digits; and a value `SetCompact` decodes without a flag re-encodes
to itself. -/
theorem SetCompact_GetCompact (x : arith_uint256) (c : UInt32) :
    ((SetCompact (GetCompact x false)).2 = (false, false) ∧
      (SetCompact (GetCompact x false)).1.toNat =
        truncBytes (if mantissa x.toNat < 2 ^ 23 then 3 else 2) x.toNat ∧
      (SetCompact (GetCompact x false)).1.toNat ≤ x.toNat ∧
      (byteLength x.toNat ≤ (if mantissa x.toNat < 2 ^ 23 then 3 else 2) →
        (SetCompact (GetCompact x false)).1 = x)) ∧
    ((SetCompact c).2 = (false, false) →
      (SetCompact (GetCompact (SetCompact c).1 false)).1 = (SetCompact c).1) := by
  have hx : x.toNat < 2 ^ 256 := Nat.lt_of_lt_of_le x.toNat_lt (by norm_num)
  refine ⟨⟨?_, toNat_SetCompact_GetCompact x, ?_, fun h => ?_⟩, fun hflags => ?_⟩
  · rw [GetCompact_eq_ofNat]
    exact SetCompact_flags_of_encoded (encode_snd_lt _) (encode_fst_le hx) (encode_snd_le_of_fst hx)
  · rw [toNat_SetCompact_GetCompact]
    exact truncBytes_le _ _
  · exact base_uint.eq_of_toNat_eq (by rw [toNat_SetCompact_GetCompact, truncBytes_of_byteLength_le h])
  · -- a value decoded without overflow is a mantissa moved up by digits, which truncation keeps
    have hover : (SetCompact c).2.2 = false := by rw [hflags]
    obtain ⟨w, e, hw, hdec⟩ := exists_decode_eq (c.toNat / 2 ^ 24) (Nat.mod_lt c.toNat (by norm_num : 0 < 2 ^ 23))
    have hval : (SetCompact c).1.toNat = w * 256 ^ e := by
      rw [toNat_SetCompact, Nat.mod_eq_of_lt (decode_lt_of_fOverflow c hover), hdec]
    apply base_uint.eq_of_toNat_eq
    rw [toNat_SetCompact_GetCompact, hval, truncBytes_mul_pow hw]

/-- The compact number of Bitcoin's genesis block decodes without a flag and re-encodes
to itself. -/
theorem SetCompact_GetCompact_genesis_nBits :
    (SetCompact 0x1d00ffff).2 = (false, false) ∧
      (SetCompact (GetCompact (SetCompact 0x1d00ffff).1 false)).1 = (SetCompact 0x1d00ffff).1 :=
  ⟨by decide, (SetCompact_GetCompact base_uint.zero 0x1d00ffff).2 (by decide)⟩

end arith_uint256

end BitcoinPQ

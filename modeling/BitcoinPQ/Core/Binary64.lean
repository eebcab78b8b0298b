import Mathlib.Data.Int.Log
import Mathlib.Data.Rat.Floor
import Mathlib.Tactic.Linarith
import Mathlib.Tactic.NormNum

/-!
# Round to nearest binary64

IEEE 754 double arithmetic as integer code meets it through a literal such as `0.05`:
a positive rational is rounded to 53 significant bits, ties to even, and a double is
converted back to an integer by truncation toward zero. Only positive values of the
normal range are modelled. Two facts let a caller recover exact integer results:
rounding never drops below an integer it lies above (while the value is below
`2 ^ 53`), and it errs by at most half a unit in the last place.
-/

namespace Binary64

/-- Round to the nearest integer, ties to even. -/
def roundEven (x : ℚ) : ℤ :=
  let k := ⌊x⌋
  if x - k < 1 / 2 then k
  else if 1 / 2 < x - k then k + 1
  else k + k % 2

theorem floor_le_roundEven (x : ℚ) : ⌊x⌋ ≤ roundEven x := by
  have hm0 := Int.emod_nonneg ⌊x⌋ (by norm_num : (2 : ℤ) ≠ 0)
  unfold roundEven
  dsimp only
  split_ifs <;> omega

theorem roundEven_le (x : ℚ) : (roundEven x : ℚ) ≤ x + 1 / 2 := by
  have hlo := Int.floor_le x
  have hm1 : ((⌊x⌋ % 2 : ℤ) : ℚ) ≤ 1 := by
    exact_mod_cast (show ⌊x⌋ % 2 ≤ 1 by omega)
  unfold roundEven
  dsimp only
  split_ifs with h1 h2
  · linarith
  · push_cast
    linarith
  · push_cast
    have hhalf : x - ⌊x⌋ = 1 / 2 := le_antisymm (not_lt.mp h2) (not_lt.mp h1)
    linarith

/-- Within half of an integer, rounding gives that integer. -/
theorem roundEven_eq_of_near (x : ℚ) (k : ℤ) (h1 : (k : ℚ) - 1 / 2 < x) (h2 : x < k + 1 / 2) :
    roundEven x = k := by
  unfold roundEven
  dsimp only
  by_cases hx : (k : ℚ) ≤ x
  · have hf : ⌊x⌋ = k := Int.floor_eq_iff.mpr ⟨hx, by linarith⟩
    rw [hf, if_pos (by linarith)]
  · have hf : ⌊x⌋ = k - 1 := Int.floor_eq_iff.mpr ⟨by push_cast; linarith, by push_cast; linarith⟩
    rw [hf]
    push_cast
    rw [if_neg (by linarith), if_pos (by linarith)]
    ring

@[simp] theorem roundEven_intCast (k : ℤ) : roundEven k = k :=
  roundEven_eq_of_near k k (by linarith) (by linarith)

/-- The binary exponent of a positive `x`: `2 ^ exponent x ≤ x < 2 ^ (exponent x + 1)`. -/
def exponent (x : ℚ) : ℤ := Int.log 2 x

/-- The unit in the last place of the doubles next to a positive `x`. -/
def ulp (x : ℚ) : ℚ := 2 ^ (exponent x - 52)

/-- The double nearest to a positive `x`, ties to even. -/
def round (x : ℚ) : ℚ := roundEven (x / ulp x) * ulp x

/-- The conversion of a double to an integer type: truncation toward zero. -/
def toInt (x : ℚ) : ℤ := if x < 0 then ⌈x⌉ else ⌊x⌋

theorem exponent_eq (x : ℚ) (e : ℤ) (h1 : (2 : ℚ) ^ e ≤ x) (h2 : x < 2 ^ (e + 1)) :
    exponent x = e := by
  have hx : 0 < x := lt_of_lt_of_le (zpow_pos (by norm_num) e) h1
  have hle : e ≤ exponent x := by
    rw [exponent, ← Int.zpow_le_iff_le_log (by norm_num) hx]
    exact_mod_cast h1
  have hlt : exponent x < e + 1 := by
    rw [exponent, ← Int.lt_zpow_iff_log_lt (by norm_num) hx]
    exact_mod_cast h2
  omega

theorem ulp_pos (x : ℚ) : 0 < ulp x := zpow_pos (by norm_num) _

theorem ulp_mul_two_pow (x : ℚ) : ulp x * 2 ^ (52 : ℤ) = 2 ^ exponent x := by
  rw [ulp, ← zpow_add₀ (by norm_num)]
  congr 1
  ring

theorem ulp_le (x : ℚ) (hx : 0 < x) : ulp x * 2 ^ (52 : ℤ) ≤ x := by
  rw [ulp_mul_two_pow]
  exact_mod_cast Int.zpow_log_le_self (by norm_num) hx

theorem round_le (x : ℚ) : round x ≤ x + ulp x / 2 := by
  have hu := ulp_pos x
  have hr := roundEven_le (x / ulp x)
  have hmul := mul_le_mul_of_nonneg_right hr hu.le
  rw [add_mul, div_mul_cancel₀ x hu.ne'] at hmul
  rw [round]
  linarith

/-- Below `2 ^ 53` the spacing of doubles is `1 / 2 ^ j` for some `j`. -/
theorem exists_ulp_mul_two_pow_eq_one (x : ℚ) (hx : 0 < x) (hx' : x < 2 ^ 53) :
    ∃ j : ℕ, ulp x * 2 ^ j = 1 := by
  have he : exponent x ≤ 52 := by
    have h := (Int.lt_zpow_iff_log_lt (b := 2) (by norm_num) hx (x := 53)).mp (by exact_mod_cast hx')
    rw [exponent]
    omega
  obtain ⟨j, hj⟩ : ∃ j : ℕ, 52 - exponent x = j := ⟨(52 - exponent x).toNat, by omega⟩
  refine ⟨j, ?_⟩
  rw [ulp, ← zpow_natCast, ← zpow_add₀ (by norm_num), ← hj]
  norm_num

/-- Below `2 ^ 53` the lattice of doubles contains every integer, so rounding stays
at or above each integer below `x`. -/
theorem intCast_le_round (x : ℚ) (hx : 0 < x) (hx' : x < 2 ^ 53) (k : ℤ) (hk : (k : ℚ) ≤ x) :
    (k : ℚ) ≤ round x := by
  -- the scale is `1 / 2 ^ j`, so `k` is the integer `k * 2 ^ j` of lattice steps
  obtain ⟨j, hu⟩ := exists_ulp_mul_two_pow_eq_one x hx hx'
  have hstep : ((k * 2 ^ j : ℤ) : ℚ) ≤ x / ulp x := by
    rw [le_div_iff₀ (ulp_pos x)]
    push_cast
    rw [mul_assoc, mul_comm (2 ^ j : ℚ), hu, mul_one]
    exact hk
  have hfl : k * 2 ^ j ≤ roundEven (x / ulp x) :=
    le_trans (Int.le_floor.mpr hstep) (floor_le_roundEven _)
  have hcast : ((k * 2 ^ j : ℤ) : ℚ) * ulp x ≤ (roundEven (x / ulp x) : ℚ) * ulp x :=
    mul_le_mul_of_nonneg_right (by exact_mod_cast hfl) (ulp_pos x).le
  push_cast at hcast
  rw [mul_assoc, mul_comm (2 ^ j : ℚ), hu, mul_one] at hcast
  exact hcast

/-- Every positive integer below `2 ^ 53` is a double. -/
theorem round_intCast (n : ℤ) (hn : 0 < n) (hn' : n < 2 ^ 53) : round n = n := by
  obtain ⟨j, hu⟩ := exists_ulp_mul_two_pow_eq_one n (by exact_mod_cast hn) (by exact_mod_cast hn')
  -- at this scale `n` is the integer `n * 2 ^ j` of lattice steps
  have hsteps : (n : ℚ) / ulp n = ((n * 2 ^ j : ℤ) : ℚ) := by
    rw [div_eq_iff (ulp_pos _).ne']
    push_cast
    rw [mul_assoc, mul_comm (2 ^ j : ℚ), hu, mul_one]
  rw [round, hsteps, roundEven_intCast]
  push_cast
  rw [mul_assoc, mul_comm (2 ^ j : ℚ), hu, mul_one]

/-- A quotient of naturals below `2 ^ 53`, rounded and truncated, is the quotient of
integer division: rounding never reaches the next integer. -/
theorem floor_round_div (a b : ℕ) (ha : 0 < a) (ha' : a < 2 ^ 53) (hb : 0 < b) :
    ⌊round ((a : ℚ) / b)⌋ = ((a / b : ℕ) : ℤ) := by
  obtain ⟨k, hkab⟩ : ∃ k, a / b = k := ⟨a / b, rfl⟩
  rw [hkab]
  have hbq : (0 : ℚ) < b := by exact_mod_cast hb
  have hq : 0 < (a : ℚ) / b := div_pos (by exact_mod_cast ha) hbq
  have hqa : (a : ℚ) / b ≤ a := div_le_self (by positivity) (by exact_mod_cast hb)
  have haq : (a : ℚ) < 2 ^ 53 := by exact_mod_cast ha'
  -- below: `k` is an integer under the quotient
  have hk : ((k : ℤ) : ℚ) ≤ (a : ℚ) / b := by
    rw [Int.cast_natCast, le_div_iff₀ hbq, ← hkab]
    exact_mod_cast Nat.div_mul_le_self a b
  have hlow := intCast_le_round _ hq (lt_of_le_of_lt hqa haq) _ hk
  -- above: half an ulp is less than `1 / b`, the gap to the next integer
  have hgap : (a : ℚ) / b + 1 / b ≤ (k : ℚ) + 1 := by
    rw [← add_div, div_le_iff₀ hbq]
    have h' : a < b * (a / b + 1) := Nat.lt_mul_div_succ a hb
    rw [hkab] at h'
    exact_mod_cast (by nlinarith : (a + 1 : ℕ) ≤ (k + 1) * b)
  have hulp : ulp ((a : ℚ) / b) / 2 < 1 / b := by
    have h1 := ulp_le _ hq
    have h2 : (a : ℚ) / b / 2 ^ (52 : ℤ) / 2 < 1 / b := by
      rw [div_div, div_div, div_lt_div_iff₀ (by positivity) hbq]
      norm_num
      nlinarith
    have h3 : ulp ((a : ℚ) / b) ≤ (a : ℚ) / b / 2 ^ (52 : ℤ) := by
      rw [le_div_iff₀ (by positivity)]
      exact h1
    linarith
  have hup := round_le ((a : ℚ) / b)
  rw [Int.cast_natCast] at hlow
  apply Int.floor_eq_iff.mpr
  rw [Int.cast_natCast]
  constructor
  · exact hlow
  · linarith

end Binary64

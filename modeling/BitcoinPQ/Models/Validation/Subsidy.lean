import BitcoinPQ.Core.Binary64
import BitcoinPQ.Models.Chain.Params
import Mathlib.Algebra.BigOperators.Group.Finset.Basic

/-!
# The block subsidy

`GetBlockSubsidy` of `validation.cpp`. Bitcoin's schedule pays 50 coins, halved every
`nSubsidyHalvingInterval` blocks and nothing from the 64th halving on. This fork
overrides it for every height below the end of the premine window with
`(MAX_MONEY * 0.05) / BPQPremineWindow`, computed in double arithmetic and truncated
to an amount. The override tests only the upper end of the window.
-/

namespace BitcoinPQ

/-- The double literal `0.05`. -/
def double_0_05 : ℚ := Binary64.round (1 / 20)

/-- `(MAX_MONEY * 0.05) / BPQPremineWindow`: both integers become doubles, and the
quotient is truncated to a `CAmount`. -/
def premineSubsidy (BPQPremineWindow : Int) : Int :=
  Binary64.toInt (Binary64.round
    (Binary64.round (Binary64.round MAX_MONEY * double_0_05) / Binary64.round BPQPremineWindow))

/-- `GetBlockSubsidy`. The source shifts by `halvings`, which is never negative for
the heights it is called with; `toNat` stands for that shift count. -/
def GetBlockSubsidy (nHeight : Int) (consensusParams : Consensus.Params) : Int :=
  let halvings := nHeight.tdiv consensusParams.nSubsidyHalvingInterval
  if halvings ≥ 64 then 0
  else
    let nSubsidy := (50 * COIN) >>> halvings.toNat
    if nHeight < consensusParams.BPQHeight + consensusParams.BPQPremineWindow then
      premineSubsidy consensusParams.BPQPremineWindow
    else nSubsidy

/-! ## The premine amount in double arithmetic -/

theorem double_0_05_eq : double_0_05 = 3602879701896397 / 2 ^ 56 := by
  have he : Binary64.exponent (1 / 20) = -5 := Binary64.exponent_eq _ _ (by norm_num) (by norm_num)
  have hr : Binary64.roundEven ((1 / 20 : ℚ) / 2 ^ ((-5 : ℤ) - 52)) = 7205759403792794 :=
    Binary64.roundEven_eq_of_near _ _ (by norm_num) (by norm_num)
  rw [double_0_05, Binary64.round, Binary64.ulp, he, hr]
  norm_num

/-- `MAX_MONEY * 0.05` rounds back to exactly five percent of `MAX_MONEY`. -/
theorem round_MAX_MONEY_mul_double_0_05 :
    Binary64.round (Binary64.round MAX_MONEY * double_0_05) = 105000000000000 := by
  have hm : Binary64.round (MAX_MONEY : ℚ) = 2100000000000000 := by
    have h := Binary64.round_intCast MAX_MONEY (by decide) (by decide)
    rw [h]
    norm_num [MAX_MONEY, COIN]
  rw [hm, double_0_05_eq]
  have he : Binary64.exponent ((2100000000000000 : ℚ) * (3602879701896397 / 2 ^ 56)) = 46 :=
    Binary64.exponent_eq _ _ (by norm_num) (by norm_num)
  have hr : Binary64.roundEven
      ((2100000000000000 : ℚ) * (3602879701896397 / 2 ^ 56) / 2 ^ ((46 : ℤ) - 52)) = 6720000000000000 :=
    Binary64.roundEven_eq_of_near _ _ (by norm_num) (by norm_num)
  rw [Binary64.round, Binary64.ulp, he, hr]
  norm_num

/-- The premine amount is the integer quotient `105000000000000 / BPQPremineWindow`
for every positive window: the double quotient never rounds up to the next integer. -/
theorem premineSubsidy_eq (w : Int) (hw : 0 < w) (hw' : w < 2 ^ 53) :
    premineSubsidy w = 105000000000000 / w := by
  obtain ⟨b, rfl⟩ : ∃ b : ℕ, w = b := ⟨w.toNat, by omega⟩
  have hb : 0 < b := by exact_mod_cast hw
  have hround : Binary64.round ((b : ℤ) : ℚ) = (b : ℚ) := by
    rw [Binary64.round_intCast _ hw hw', Int.cast_natCast]
  have hq := Binary64.floor_round_div 105000000000000 b (by norm_num) (by norm_num) hb
  have hpos : ¬ Binary64.round ((105000000000000 : ℕ) / (b : ℚ)) < 0 := by
    have h0 : (0 : ℤ) ≤ ⌊Binary64.round ((105000000000000 : ℕ) / (b : ℚ))⌋ := by
      rw [hq]
      exact Int.natCast_nonneg _
    exact not_lt.mpr (Int.floor_nonneg.mp h0)
  rw [premineSubsidy, round_MAX_MONEY_mul_double_0_05, hround, Binary64.toInt]
  push_cast at hq hpos
  rw [if_neg hpos, hq]

/-! ## The schedule -/

section Schedule

variable (p : Consensus.Params) (nHeight : Int)

/-- `GetBlockSubsidy` at a height and halving interval as the source uses them. -/
theorem GetBlockSubsidy_eq (hh : 0 ≤ nHeight) :
    GetBlockSubsidy nHeight p =
      if 64 ≤ nHeight / p.nSubsidyHalvingInterval then 0
      else if nHeight < p.BPQHeight + p.BPQPremineWindow then premineSubsidy p.BPQPremineWindow
      else 50 * COIN / ((2 ^ (nHeight / p.nSubsidyHalvingInterval).toNat : ℕ) : Int) := by
  rw [GetBlockSubsidy, Int.tdiv_eq_ediv_of_nonneg hh, Int.shiftRight_eq_div_pow]

/-- Below the end of the premine window, before the 64th halving, every height is paid
the premine, whatever `BPQHeight` is. -/
theorem GetBlockSubsidy_of_lt_window (hh : 0 ≤ nHeight)
    (hhalf : nHeight / p.nSubsidyHalvingInterval < 64)
    (hwin : nHeight < p.BPQHeight + p.BPQPremineWindow)
    (hw : 0 < p.BPQPremineWindow) (hw' : p.BPQPremineWindow < 2 ^ 53) :
    GetBlockSubsidy nHeight p = 105000000000000 / p.BPQPremineWindow := by
  rw [GetBlockSubsidy_eq p nHeight hh, if_neg (by omega), if_pos hwin, premineSubsidy_eq _ hw hw']

/-- What `GetBlockSubsidy` pays at every height, for every parameter set with a
positive halving interval (the source divides by it) and premine window: the premine
below the end of the window and the halving schedule from there on, with nothing from
the 64th halving on. -/
theorem GetBlockSubsidy_schedule (hh : 0 ≤ nHeight) (_hi : 0 < p.nSubsidyHalvingInterval)
    (hw : 0 < p.BPQPremineWindow) (hw' : p.BPQPremineWindow < 2 ^ 53) :
    GetBlockSubsidy nHeight p =
      if 64 ≤ nHeight / p.nSubsidyHalvingInterval then 0
      else if nHeight < p.BPQHeight + p.BPQPremineWindow then 105000000000000 / p.BPQPremineWindow
      else 50 * COIN / ((2 ^ (nHeight / p.nSubsidyHalvingInterval).toNat : ℕ) : Int) := by
  rw [GetBlockSubsidy_eq p nHeight hh, premineSubsidy_eq _ hw hw']

end Schedule

/-- The last block of the main chain's premine window. -/
theorem GetBlockSubsidy_schedule_main_window_end :
    GetBlockSubsidy 555047 mainParams.consensus = 2187500000000 := by
  rw [GetBlockSubsidy_schedule mainParams.consensus 555047 (by decide) (by decide) (by decide)
    (by decide)]
  decide

/-- On the main chain every height before the fork is paid the premine of 21875 coins,
not 50: the premine test has no lower bound. The first 961 blocks alone already pay
more than `MAX_MONEY`. -/
theorem GetBlockSubsidy_main_premine_before_fork :
    (∀ nHeight : Int, 0 ≤ nHeight → nHeight < mainParams.consensus.BPQHeight →
      GetBlockSubsidy nHeight mainParams.consensus = 2187500000000) ∧
    50 * COIN < 2187500000000 ∧
    MoneyRange (∑ h ∈ Finset.range 961, GetBlockSubsidy (h : ℕ) mainParams.consensus) = false := by
  have hpre : ∀ nHeight : Int, 0 ≤ nHeight → nHeight < mainParams.consensus.BPQHeight →
      GetBlockSubsidy nHeight mainParams.consensus = 2187500000000 := by
    intro nHeight hh hfork
    have hfork' : nHeight < 555000 := hfork
    rw [GetBlockSubsidy_of_lt_window _ _ hh (by show nHeight / 210000 < 64; omega)
      (by show nHeight < 555000 + 48; omega) (by decide) (by decide)]
    rfl
  -- the first 961 heights are all before the fork
  have hsum : ∑ h ∈ Finset.range 961, GetBlockSubsidy (h : ℕ) mainParams.consensus =
      961 * 2187500000000 := by
    rw [Finset.sum_congr rfl fun (h : ℕ) (hh : h ∈ Finset.range 961) => hpre h (Int.natCast_nonneg h)
      (by have := Finset.mem_range.mp hh; show (h : Int) < 555000; omega)]
    rw [Finset.sum_const, Finset.card_range, nsmul_eq_mul]
    norm_num
  refine ⟨hpre, by decide, ?_⟩
  rw [hsum]
  decide

end BitcoinPQ

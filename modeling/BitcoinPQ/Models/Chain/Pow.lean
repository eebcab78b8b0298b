import BitcoinPQ.Models.Arith.Compact
import BitcoinPQ.Models.Chain.Params
import BitcoinPQ.Models.Chain.BlockIndex

/-!
# Proof of work

`GetBlockProof` (`chain.cpp`) and `BitcoinCalculateNextWorkRequired` (`pow.cpp`) on
`arith_uint256` targets decoded from the compact `nBits` of a block.

The work of a block is `2^256 / (target + 1)`, computed without `2^256` as
`~target / (target + 1) + 1`. The next target scales the previous one by the time the
last period took, held between a quarter and four times the intended timespan, and is
capped by the chain's limit; before the fork it multiplies first, after it divides
first, and with the chains' limits neither order leaves 256 bits. Regtest turns
retargeting off.
-/

namespace BitcoinPQ

open arith_uint256 BitcoinPQ.Compact

/-! ## Reading a `uint256` -/

/-- `ReadLE32`: the little-endian 32-bit word at the start of `ptr`. -/
def ReadLE32 (ptr : List UInt8) : UInt32 :=
  UInt32.ofNat (Wire.leValue (ptr.take 4))

/-- `UintToArith256`: word `x` is read from bytes `4x` to `4x + 3`. -/
def UintToArith256 (a : UInt256) : arith_uint256 :=
  ⟨(List.range 8).map fun x => ReadLE32 (a.data.drop (x * 4)), by rw [List.length_map, List.length_range]⟩

theorem toNat_ReadLE32 {ptr : List UInt8} (h : 4 ≤ ptr.length) : (ReadLE32 ptr).toNat = Wire.leValue (ptr.take 4) := by
  have hlt := Wire.leValue_lt (ptr.take 4)
  rw [List.length_take, Nat.min_eq_left h] at hlt
  exact UInt32.toNat_ofNat_of_lt' hlt

/-- Words read from every fourth byte are the base-`2^32` digits of the bytes' value. -/
theorem val_map_ReadLE32 : ∀ (n : ℕ) (l : List UInt8), l.length = 4 * n →
    base_uint.val ((List.range n).map fun x => ReadLE32 (l.drop (x * 4))) = Wire.leValue l
  | 0, l, hl => by
    rw [List.eq_nil_of_length_eq_zero hl]
    rfl
  | n + 1, l, hl => by
    have hsplit := Wire.leValue_append (l.take 4) (l.drop 4)
    rw [List.take_append_drop, List.length_take, Nat.min_eq_left (by omega)] at hsplit
    have hrest : ((List.range n).map fun x => ReadLE32 (l.drop ((x + 1) * 4))) =
        (List.range n).map fun x => ReadLE32 ((l.drop 4).drop (x * 4)) := by
      congr 1
      funext x
      rw [List.drop_drop, Nat.add_mul, Nat.one_mul, Nat.add_comm]
    rw [List.range_succ_eq_map, List.map_cons, List.map_map, base_uint.val_cons, Nat.zero_mul, List.drop_zero,
      toNat_ReadLE32 (by omega), Function.comp_def, hrest,
      val_map_ReadLE32 n (l.drop 4) (by rw [List.length_drop]; omega), hsplit]
    rfl

/-- `UintToArith256` keeps the value of the bytes. -/
theorem toNat_UintToArith256 (a : UInt256) : (UintToArith256 a).toNat = Wire.leValue a.data :=
  val_map_ReadLE32 8 a.data (by rw [a.size_eq])

/-! ## The work of a block -/

/-- `GetBlockProof`: `~bnTarget / (bnTarget + 1) + 1`, or zero for a negative,
overflowing or zero target. -/
def GetBlockProof (block : CBlockIndex) : Except String arith_uint256 :=
  let r := SetCompact block.entry.nBits
  let bnTarget := r.1
  if r.2.1 || r.2.2 || bnTarget.EqualTo 0 then .ok (base_uint.ofUInt64 0)
  else do
    let q ← bnTarget.complement.divide (bnTarget.add (base_uint.ofUInt64 1))
    return q.add (base_uint.ofUInt64 1)

/-- `n / d` is one more than `(n - d) / d`. -/
theorem div_sub_add_one {n d : ℕ} (hd : 0 < d) (hdn : d ≤ n) : (n - d) / d + 1 = n / d := by
  rw [← Nat.add_div_right _ hd, Nat.sub_add_cancel hdn]

/-- A valid target: the work is `2^256 / (target + 1)`, and the divider does not throw. -/
theorem GetBlockProof_of_valid {block : CBlockIndex} (hneg : (SetCompact block.entry.nBits).2.1 = false)
    (hover : (SetCompact block.entry.nBits).2.2 = false) (hzero : (SetCompact block.entry.nBits).1.toNat ≠ 0) :
    ∃ p, GetBlockProof block = .ok p ∧ p.toNat = 2 ^ 256 / ((SetCompact block.entry.nBits).1.toNat + 1) := by
  have h256 : ((2 : ℕ) ^ 32) ^ 8 = 2 ^ 256 := by norm_num
  have hone : (base_uint.ofUInt64 1 : arith_uint256).toNat = 1 := base_uint.toNat_ofUInt64 (by norm_num) 1
  generalize hT : (SetCompact block.entry.nBits).1 = T at hzero
  have hT1 : T.toNat + 1 < 2 ^ 256 := hT ▸ toNat_SetCompact_add_one_lt _ hover
  -- the divisor `bnTarget + 1` does not wrap
  have hdiv : (T.add (base_uint.ofUInt64 1)).toNat = T.toNat + 1 := by
    rw [base_uint.toNat_add, hone, h256, Nat.mod_eq_of_lt hT1]
  obtain ⟨q, hq, hqval⟩ := base_uint.divide_eq_ok (a := T.complement) (by rw [hdiv]; omega)
  rw [hdiv, base_uint.toNat_complement, h256] at hqval
  have hqle : q.toNat + 1 < 2 ^ 256 := by
    rw [hqval]
    have := Nat.div_le_self (2 ^ 256 - 1 - T.toNat) (T.toNat + 1)
    omega
  refine ⟨q.add (base_uint.ofUInt64 1), ?_, ?_⟩
  · have hcond : (T.EqualTo 0) = false := by
      rw [Bool.eq_false_iff, ne_eq, base_uint.EqualTo_iff (by norm_num)]
      exact hzero
    simp only [GetBlockProof, hT, hneg, hover, hcond, Bool.false_or, if_false, Bool.false_eq_true, hq]
    rfl
  · -- `~T / (T + 1) + 1` is `2^256 / (T + 1)`
    rw [base_uint.toNat_add, hone, h256, Nat.mod_eq_of_lt hqle, hqval,
      show 2 ^ 256 - 1 - T.toNat = 2 ^ 256 - (T.toNat + 1) by omega, div_sub_add_one (by omega) (by omega)]

theorem GetBlockProof_of_invalid {block : CBlockIndex}
    (h : (SetCompact block.entry.nBits).2.1 = true ∨ (SetCompact block.entry.nBits).2.2 = true ∨
      (SetCompact block.entry.nBits).1.toNat = 0) :
    GetBlockProof block = .ok (base_uint.ofUInt64 0) := by
  have hcond : ((SetCompact block.entry.nBits).2.1 || (SetCompact block.entry.nBits).2.2 ||
      (SetCompact block.entry.nBits).1.EqualTo 0) = true := by
    rw [Bool.or_eq_true, Bool.or_eq_true, base_uint.EqualTo_iff (by norm_num)]
    rcases h with h | h | h
    · exact .inl (.inl h)
    · exact .inl (.inr h)
    · exact .inr h
  simp only [GetBlockProof]
  rw [if_pos hcond]

/-- `GetBlockProof` is `2^256 / (T + 1)` for a valid target `T` and zero otherwise, and a
block with a valid target no larger than another's has no less work. -/
theorem GetBlockProof_eq (block b₁ b₂ : CBlockIndex) :
    (GetBlockProof block).map base_uint.toNat =
        .ok (if (SetCompact block.entry.nBits).2.1 = true ∨ (SetCompact block.entry.nBits).2.2 = true ∨
            (SetCompact block.entry.nBits).1.toNat = 0 then 0
          else 2 ^ 256 / ((SetCompact block.entry.nBits).1.toNat + 1)) ∧
      ((SetCompact b₁.entry.nBits).2 = (false, false) → (SetCompact b₁.entry.nBits).1.toNat ≠ 0 →
        (SetCompact b₂.entry.nBits).2 = (false, false) → (SetCompact b₂.entry.nBits).1.toNat ≠ 0 →
        (SetCompact b₁.entry.nBits).1.toNat ≤ (SetCompact b₂.entry.nBits).1.toNat →
        ∃ p₁ p₂, GetBlockProof b₁ = .ok p₁ ∧ GetBlockProof b₂ = .ok p₂ ∧ p₂.toNat ≤ p₁.toNat) := by
  refine ⟨?_, fun hf₁ hz₁ hf₂ hz₂ hle => ?_⟩
  · split
    · next h =>
      rw [GetBlockProof_of_invalid h]
      exact congrArg Except.ok (base_uint.toNat_ofUInt64 (by norm_num) 0)
    · next h =>
      simp only [not_or, Bool.not_eq_true] at h
      obtain ⟨p, hp, hpval⟩ := GetBlockProof_of_valid h.1 h.2.1 h.2.2
      rw [hp, ← hpval]
      rfl
  · -- a larger target divides `2^256` by more
    obtain ⟨p₁, hp₁, hv₁⟩ := GetBlockProof_of_valid (congrArg Prod.fst hf₁) (congrArg Prod.snd hf₁) hz₁
    obtain ⟨p₂, hp₂, hv₂⟩ := GetBlockProof_of_valid (congrArg Prod.fst hf₂) (congrArg Prod.snd hf₂) hz₂
    refine ⟨p₁, p₂, hp₁, hp₂, ?_⟩
    rw [hv₁, hv₂]
    exact Nat.div_le_div_left (Nat.add_le_add_right hle 1) (Nat.succ_pos _)

/-- Valid targets 256 and 512: the smaller one has the more work. -/
theorem GetBlockProof_eq_targets_256_512 :
    ∃ p₁ p₂, GetBlockProof ⟨⟨UInt256.zero, 0, 0, 0, 0x03000100⟩, []⟩ = .ok p₁ ∧
      GetBlockProof ⟨⟨UInt256.zero, 0, 0, 0, 0x03000200⟩, []⟩ = .ok p₂ ∧ p₂.toNat ≤ p₁.toNat :=
  (GetBlockProof_eq ⟨⟨UInt256.zero, 0, 0, 0, 0x03000100⟩, []⟩ ⟨⟨UInt256.zero, 0, 0, 0, 0x03000100⟩, []⟩
    ⟨⟨UInt256.zero, 0, 0, 0, 0x03000200⟩, []⟩).2 (by decide) (by decide) (by decide) (by decide) (by decide)

/-! ## Retargeting -/

/-- `BitcoinCalculateNextWorkRequired`. `bnNew *= nActualTimespan` is `operator*=(uint32_t)`
on the timespan converted to 32 bits, and `bnNew /= params.nPowTargetTimespan` divides by
the timespan converted to a `uint64_t`; the divider throws on a zero timespan. -/
def BitcoinCalculateNextWorkRequired (pindexLast : CBlockIndex) (nFirstBlockTime : Int)
    (params : Consensus.Params) (postfork : Bool) : Except String UInt32 :=
  if params.fPowNoRetargeting then .ok pindexLast.entry.nBits
  else do
    -- limit adjustment step
    let nActualTimespan := pindexLast.GetBlockTime - nFirstBlockTime
    let nActualTimespan :=
      if nActualTimespan < params.nPowTargetTimespan / 4 then params.nPowTargetTimespan / 4 else nActualTimespan
    let nActualTimespan :=
      if nActualTimespan > params.nPowTargetTimespan * 4 then params.nPowTargetTimespan * 4 else nActualTimespan
    -- retarget
    let bnPowLimit := UintToArith256 (params.PowLimit postfork)
    let bnNew := (SetCompact pindexLast.entry.nBits).1
    let bnNew ← if !postfork then
        (bnNew.mul32 (UInt32.ofInt nActualTimespan)).divide
          (base_uint.ofUInt64 (UInt64.ofInt params.nPowTargetTimespan))
      else do
        let bnNew ← bnNew.divide (base_uint.ofUInt64 (UInt64.ofInt params.nPowTargetTimespan))
        pure (bnNew.mul32 (UInt32.ofInt nActualTimespan))
    let bnNew := if bnNew.CompareTo bnPowLimit > 0 then bnPowLimit else bnNew
    return GetCompact bnNew false

/-- The time the last period took, held between a quarter and four times the intended
timespan. -/
def clampedTimespan (params : Consensus.Params) (t : Int) : ℕ :=
  (min (max t (params.nPowTargetTimespan / 4)) (params.nPowTargetTimespan * 4)).toNat

/-- The retargeted value before the limit: the old target times the clamped timespan over
the intended one, dividing first after the fork. -/
def retarget (postfork : Bool) (old ts t : ℕ) : ℕ :=
  if postfork then old / ts * t else old * t / ts

section Retarget

variable {params : Consensus.Params} (hts : 0 < params.nPowTargetTimespan)
  (hts4 : params.nPowTargetTimespan * 4 < 2 ^ 32)
include hts hts4

/-- The clamped timespan fits the 32 bits `operator*=` takes. -/
theorem toNat_ofInt_clamped (t : Int) :
    (UInt32.ofInt (if (if t < params.nPowTargetTimespan / 4 then params.nPowTargetTimespan / 4 else t) >
        params.nPowTargetTimespan * 4 then params.nPowTargetTimespan * 4
      else if t < params.nPowTargetTimespan / 4 then params.nPowTargetTimespan / 4 else t)).toNat =
      clampedTimespan params t := by
  have hc : (if (if t < params.nPowTargetTimespan / 4 then params.nPowTargetTimespan / 4 else t) >
        params.nPowTargetTimespan * 4 then params.nPowTargetTimespan * 4
      else if t < params.nPowTargetTimespan / 4 then params.nPowTargetTimespan / 4 else t) =
      min (max t (params.nPowTargetTimespan / 4)) (params.nPowTargetTimespan * 4) := by
    split_ifs <;> omega
  rw [hc, clampedTimespan, UInt32.ofInt, Int.emod_eq_of_lt (by omega) (by omega)]
  exact UInt32.toNat_ofNat_of_lt' ((Int.toNat_lt (by omega)).2 (by show _ < ((2 ^ 32 : ℕ) : ℤ); omega))

theorem clampedTimespan_le (t : Int) : clampedTimespan params t ≤ 4 * params.nPowTargetTimespan.toNat := by
  rw [clampedTimespan]
  omega

/-- The timespan as the divisor of `/=`. -/
theorem toNat_ofUInt64_timespan :
    (base_uint.ofUInt64 (UInt64.ofInt params.nPowTargetTimespan) : arith_uint256).toNat =
      params.nPowTargetTimespan.toNat := by
  rw [base_uint.toNat_ofUInt64 (by norm_num), UInt64.ofInt, Int.emod_eq_of_lt (by omega) (by omega)]
  exact UInt64.toNat_ofNat_of_lt' ((Int.toNat_lt (by omega)).2 (by show _ < ((2 ^ 64 : ℕ) : ℤ); omega))

/-- Where the product of the retarget fits in 256 bits, `BitcoinCalculateNextWorkRequired`
encodes the retargeted target, capped by the limit. -/
theorem BitcoinCalculateNextWorkRequired_spec (hno : params.fPowNoRetargeting = false)
    (pindexLast : CBlockIndex) (nFirstBlockTime : Int) (postfork : Bool)
    (hfit : (if postfork then (SetCompact pindexLast.entry.nBits).1.toNat / params.nPowTargetTimespan.toNat *
        clampedTimespan params (pindexLast.GetBlockTime - nFirstBlockTime)
      else (SetCompact pindexLast.entry.nBits).1.toNat *
        clampedTimespan params (pindexLast.GetBlockTime - nFirstBlockTime)) < 2 ^ 256) :
    ∃ v : arith_uint256, BitcoinCalculateNextWorkRequired pindexLast nFirstBlockTime params postfork =
        .ok (GetCompact v false) ∧
      v.toNat = min (Wire.leValue (params.PowLimit postfork).data)
        (retarget postfork (SetCompact pindexLast.entry.nBits).1.toNat params.nPowTargetTimespan.toNat
          (clampedTimespan params (pindexLast.GetBlockTime - nFirstBlockTime))) := by
  have h256 : ((2 : ℕ) ^ 32) ^ 8 = 2 ^ 256 := by norm_num
  have hT := toNat_ofInt_clamped hts hts4 (pindexLast.GetBlockTime - nFirstBlockTime)
  have hD := toNat_ofUInt64_timespan hts hts4
  have hD0 : params.nPowTargetTimespan.toNat ≠ 0 := by omega
  -- the capped value: the limit where the retargeted one is above it
  have hcap : ∀ bnNew : arith_uint256,
      (if bnNew.CompareTo (UintToArith256 (params.PowLimit postfork)) > 0 then UintToArith256 (params.PowLimit postfork)
        else bnNew).toNat = min (Wire.leValue (params.PowLimit postfork).data) bnNew.toNat := by
    intro bnNew
    rw [← toNat_UintToArith256]
    by_cases h : (UintToArith256 (params.PowLimit postfork)).toNat < bnNew.toNat
    · rw [if_pos ((base_uint.CompareTo_pos_iff _ _).2 h), Nat.min_eq_left (Nat.le_of_lt h)]
    · rw [if_neg (fun h' => h ((base_uint.CompareTo_pos_iff _ _).1 h')), Nat.min_eq_right (Nat.not_lt.1 h)]
  cases postfork
  · -- before the fork: multiply, then divide
    rw [if_neg Bool.false_ne_true] at hfit
    simp only [BitcoinCalculateNextWorkRequired, hno, Bool.false_eq_true, if_false, Bool.not_false, if_true, bind,
      Except.bind, pure, Except.pure]
    split
    · next e hdiv =>
      exact absurd hdiv (base_uint.divide_ne_error (by rw [hD]; exact hD0) e)
    · next q hdiv =>
      refine ⟨_, rfl, ?_⟩
      rw [hcap, base_uint.toNat_of_divide_eq_ok (by rw [hD]; exact hD0) hdiv, base_uint.toNat_mul32, hT, hD, h256,
        Nat.mod_eq_of_lt hfit]
      rfl
  · -- after the fork: divide, then multiply
    rw [if_pos rfl] at hfit
    simp only [BitcoinCalculateNextWorkRequired, hno, Bool.false_eq_true, if_false, Bool.not_true, bind,
      Except.bind, pure, Except.pure]
    split
    · next e hdiv =>
      exact absurd hdiv (base_uint.divide_ne_error (by rw [hD]; exact hD0) e)
    · next q hdiv =>
      refine ⟨_, rfl, ?_⟩
      rw [hcap, base_uint.toNat_mul32, base_uint.toNat_of_divide_eq_ok (by rw [hD]; exact hD0) hdiv, hT, hD, h256,
        Nat.mod_eq_of_lt hfit]
      rfl

end Retarget

/-! ## The chains' parameters -/

/-- Mainnet's limits: `2^248 - 1` after the fork, `2^224 - 1` before it. -/
theorem leValue_PowLimit_main (postfork : Bool) :
    Wire.leValue (mainParams.consensus.PowLimit postfork).data = if postfork then 2 ^ 248 - 1 else 2 ^ 224 - 1 := by
  cases postfork <;> decide

/-- Testnet has mainnet's limits. -/
theorem leValue_PowLimit_testNet (postfork : Bool) :
    Wire.leValue (testNetParams.consensus.PowLimit postfork).data = if postfork then 2 ^ 248 - 1 else 2 ^ 224 - 1 := by
  cases postfork <;> decide

/-- On mainnet and testnet, for a previous target no larger than the limit, the product of
the retarget stays below `2^256` and `BitcoinCalculateNextWorkRequired` encodes the
retargeted target capped by the limit; regtest keeps the previous `nBits`. -/
theorem BitcoinCalculateNextWorkRequired_chains (pindexLast : CBlockIndex) (nFirstBlockTime : Int) (postfork : Bool) :
    (∀ params ∈ [mainParams.consensus, testNetParams.consensus],
      (SetCompact pindexLast.entry.nBits).2.2 = false → 0 < (SetCompact pindexLast.entry.nBits).1.toNat →
      (SetCompact pindexLast.entry.nBits).1.toNat ≤ Wire.leValue (params.PowLimit postfork).data →
      (if postfork then (SetCompact pindexLast.entry.nBits).1.toNat / params.nPowTargetTimespan.toNat *
          clampedTimespan params (pindexLast.GetBlockTime - nFirstBlockTime)
        else (SetCompact pindexLast.entry.nBits).1.toNat *
          clampedTimespan params (pindexLast.GetBlockTime - nFirstBlockTime)) < 2 ^ 256 ∧
      ∃ v : arith_uint256, BitcoinCalculateNextWorkRequired pindexLast nFirstBlockTime params postfork =
          .ok (GetCompact v false) ∧
        v.toNat = min (Wire.leValue (params.PowLimit postfork).data)
          (retarget postfork (SetCompact pindexLast.entry.nBits).1.toNat params.nPowTargetTimespan.toNat
            (clampedTimespan params (pindexLast.GetBlockTime - nFirstBlockTime)))) ∧
    BitcoinCalculateNextWorkRequired pindexLast nFirstBlockTime regTestParams.consensus postfork =
      .ok pindexLast.entry.nBits := by
  refine ⟨fun params hp _ _ hle => ?_, rfl⟩
  -- the two chains share the timespan, the flags and the limits
  rw [List.mem_cons, List.mem_singleton] at hp
  have hts : params.nPowTargetTimespan = 1209600 := by rcases hp with rfl | rfl <;> rfl
  have hno : params.fPowNoRetargeting = false := by rcases hp with rfl | rfl <;> rfl
  have hlim : Wire.leValue (params.PowLimit postfork).data = if postfork then 2 ^ 248 - 1 else 2 ^ 224 - 1 := by
    rcases hp with rfl | rfl
    · exact leValue_PowLimit_main postfork
    · exact leValue_PowLimit_testNet postfork
  have hT := @clampedTimespan_le params (by omega) (by omega) (pindexLast.GetBlockTime - nFirstBlockTime)
  rw [hts, show (1209600 : ℤ).toNat = 1209600 from rfl] at hT
  have hfit : (if postfork then (SetCompact pindexLast.entry.nBits).1.toNat / params.nPowTargetTimespan.toNat *
        clampedTimespan params (pindexLast.GetBlockTime - nFirstBlockTime)
      else (SetCompact pindexLast.entry.nBits).1.toNat *
        clampedTimespan params (pindexLast.GetBlockTime - nFirstBlockTime)) < 2 ^ 256 := by
    rw [hlim] at hle
    cases postfork
    · -- before the fork the legacy limit leaves room for four timespans
      rw [if_neg Bool.false_ne_true] at hle ⊢
      calc (SetCompact pindexLast.entry.nBits).1.toNat * clampedTimespan params (pindexLast.GetBlockTime - nFirstBlockTime)
          ≤ (2 ^ 224 - 1) * (4 * 1209600) := Nat.mul_le_mul hle hT
        _ < 2 ^ 256 := by norm_num
    · -- after the fork dividing first leaves at most four times the old target
      rw [if_pos rfl] at hle ⊢
      calc (SetCompact pindexLast.entry.nBits).1.toNat / params.nPowTargetTimespan.toNat *
            clampedTimespan params (pindexLast.GetBlockTime - nFirstBlockTime)
          ≤ (SetCompact pindexLast.entry.nBits).1.toNat / params.nPowTargetTimespan.toNat *
            (4 * params.nPowTargetTimespan.toNat) := Nat.mul_le_mul_left _ (by rw [hts]; exact hT)
        _ = 4 * ((SetCompact pindexLast.entry.nBits).1.toNat / params.nPowTargetTimespan.toNat *
            params.nPowTargetTimespan.toNat) := by ring
        _ ≤ 4 * (SetCompact pindexLast.entry.nBits).1.toNat := Nat.mul_le_mul_left _ (Nat.div_mul_le_self _ _)
        _ < 2 ^ 256 := by omega
  exact ⟨hfit, BitcoinCalculateNextWorkRequired_spec (by omega) (by omega) hno pindexLast nFirstBlockTime postfork hfit⟩

/-- On mainnet, a target of 256 after a period of exactly the intended timespan. -/
theorem BitcoinCalculateNextWorkRequired_main_target_256 :
    ∃ v : arith_uint256,
      BitcoinCalculateNextWorkRequired ⟨⟨UInt256.zero, 0, 0, 1209600, 0x03000100⟩, []⟩ 0 mainParams.consensus false =
          .ok (GetCompact v false) ∧
        v.toNat = min (Wire.leValue (mainParams.consensus.PowLimit false).data)
          (retarget false (SetCompact 0x03000100).1.toNat mainParams.consensus.nPowTargetTimespan.toNat
            (clampedTimespan mainParams.consensus (CBlockIndex.GetBlockTime ⟨⟨UInt256.zero, 0, 0, 1209600, 0x03000100⟩, []⟩ - 0))) :=
  ((BitcoinCalculateNextWorkRequired_chains ⟨⟨UInt256.zero, 0, 0, 1209600, 0x03000100⟩, []⟩ 0 false).1
    mainParams.consensus (by simp) (by decide) (by decide) (by decide)).2

/-- On regtest, where retargeting is off, a target of 256 after a period four times too
fast comes back unchanged, where the retarget gives 64 and so another compact number. -/
theorem BitcoinCalculateNextWorkRequired_regtest_keeps_nBits :
    (SetCompact 0x03000100).2.2 = false ∧ (SetCompact 0x03000100).1.toNat = 256 ∧
      256 ≤ Wire.leValue (regTestParams.consensus.PowLimit false).data ∧
      min (Wire.leValue (regTestParams.consensus.PowLimit false).data)
        (retarget false 256 regTestParams.consensus.nPowTargetTimespan.toNat (clampedTimespan regTestParams.consensus 0)) = 64 ∧
      BitcoinCalculateNextWorkRequired ⟨⟨UInt256.zero, 0, 0, 0, 0x03000100⟩, []⟩ 0 regTestParams.consensus false =
        .ok 0x03000100 ∧
      ∀ v : arith_uint256, v.toNat = 64 → GetCompact v false ≠ 0x03000100 := by
  refine ⟨by decide, by decide, by decide, by decide, rfl, fun v hv => ?_⟩
  have hv' : v = base_uint.ofUInt64 64 := base_uint.eq_of_toNat_eq (by rw [hv, base_uint.toNat_ofUInt64 (by norm_num)]; rfl)
  rw [hv']
  decide

end BitcoinPQ

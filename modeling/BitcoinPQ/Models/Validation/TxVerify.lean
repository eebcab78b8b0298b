import BitcoinPQ.Core.Int64Range
import BitcoinPQ.Models.Validation.Undo
import BitcoinPQ.Models.Validation.HeaderCheck

/-!
# Transaction checks

`CheckTransaction` and `Consensus::CheckTxInputs` of `consensus/tx_verify.cpp`, and
`CTransaction::GetValueOut`. Amounts are `int64_t` here as in the source: each running
total adds in 64 bits and is then checked against the money range, so no sum of an
accepted transaction wraps, and the totals and the fee are the exact ones. Of the
`CValidationState` a failed check fills, the model keeps the DoS score, the reject
code and the reason.
-/

namespace BitcoinPQ

open Relax Writes Wire Int64Range

/-- `COINBASE_MATURITY`. -/
def COINBASE_MATURITY : Int := 100

/-! ## Without context -/

/-- The loop of `CTransaction::GetValueOut` from the running total `nValueOut`. -/
def valueOutLoop : Int64 → List CTxOut → Except String Int64
  | nValueOut, [] => pure nValueOut
  | nValueOut, tx_out :: vout => do
    let nValueOut := nValueOut + tx_out.nValue
    if !MoneyRange tx_out.nValue.toInt || !MoneyRange nValueOut.toInt then
      throw "GetValueOut: value out of range"
    valueOutLoop nValueOut vout

/-- `CTransaction::GetValueOut`: the total of the outputs, or the `std::runtime_error`
it throws where an output or a partial total leaves the money range. -/
def CTransaction.GetValueOut (tx : CTransaction) : Except String Int64 :=
  valueOutLoop 0 tx.vout

/-- The check of the outputs in `CheckTransaction`, from the running total `nValueOut`. -/
def checkOutputsLoop : Int64 → List CTxOut → Except ValidationFailure Int64
  | nValueOut, [] => pure nValueOut
  | nValueOut, txout :: vout => do
    if txout.nValue < 0 then throw ⟨100, REJECT_INVALID, "bad-txns-vout-negative"⟩
    if txout.nValue.toInt > MAX_MONEY then throw ⟨100, REJECT_INVALID, "bad-txns-vout-toolarge"⟩
    let nValueOut := nValueOut + txout.nValue
    if !MoneyRange nValueOut.toInt then throw ⟨100, REJECT_INVALID, "bad-txns-txouttotal-toolarge"⟩
    checkOutputsLoop nValueOut vout

/-- The check for duplicate inputs in `CheckTransaction`: each prevout inserted into
the set `vInOutPoints` of those before it. -/
def checkDuplicatesLoop : List COutPoint → List CTxIn → Except ValidationFailure Unit
  | _, [] => pure ()
  | vInOutPoints, txin :: vin =>
    if txin.prevout ∈ vInOutPoints then throw ⟨100, REJECT_INVALID, "bad-txns-inputs-duplicate"⟩
    else checkDuplicatesLoop (txin.prevout :: vInOutPoints) vin

/-- `CheckTransaction`. -/
def CheckTransaction (tx : CTransaction) (fCheckDuplicateInputs : Bool) :
    Except ValidationFailure Unit := do
  if tx.vin.isEmpty then throw ⟨10, REJECT_INVALID, "bad-txns-vin-empty"⟩
  if tx.vout.isEmpty then throw ⟨10, REJECT_INVALID, "bad-txns-vout-empty"⟩
  if tx.GetSerializeSize (PROTOCOL_VERSION ||| SERIALIZE_TRANSACTION_NO_WITNESS) * WITNESS_SCALE_FACTOR >
      MAX_BLOCK_WEIGHT then
    throw ⟨100, REJECT_INVALID, "bad-txns-oversize"⟩
  let _ ← checkOutputsLoop 0 tx.vout
  if fCheckDuplicateInputs then checkDuplicatesLoop [] tx.vin
  if tx.IsCoinBase then
    if let some txin := tx.vin.head? then
      if txin.scriptSig.length < 2 || txin.scriptSig.length > 100 then
        throw ⟨100, REJECT_INVALID, "bad-cb-length"⟩
  else if tx.vin.any (·.prevout.IsNull) then
    throw ⟨10, REJECT_INVALID, "bad-txns-prevout-null"⟩

/-! ### What `CheckTransaction` accepts -/

theorem moneyRange_iff {nValue : Int} :
    MoneyRange nValue = true ↔ 0 ≤ nValue ∧ nValue ≤ MAX_MONEY := by
  simp [MoneyRange]

theorem MAX_MONEY_lt : MAX_MONEY < 2 ^ 62 := by
  unfold MAX_MONEY COIN
  omega

theorem moneyRange_iff_not_lt {nValue : Int64} :
    MoneyRange nValue.toInt = true ↔ ¬nValue < 0 ∧ ¬nValue.toInt > MAX_MONEY := by
  rw [moneyRange_iff, Int64.lt_iff_toInt_lt, Int64.toInt_zero]
  omega

/-- A step of the checked total in `[0, MAX_MONEY]`, as the source states it. -/
theorem checkedStep_iff {total x : Int64} :
    (0 ≤ x.toInt ∧ x.toInt ≤ MAX_MONEY ∧ 0 ≤ (total + x).toInt ∧ (total + x).toInt ≤ MAX_MONEY) ↔
      MoneyRange x.toInt = true ∧ MoneyRange (total + x).toInt = true := by
  simp only [moneyRange_iff, and_assoc]

/-- The checked total in the money range from zero, over the exact sum. -/
theorem checkedTotal_zero_eq_some_iff (xs : List Int64) (v : Int64) :
    checkedTotal MAX_MONEY 0 xs = some v ↔
      (∀ x ∈ xs, 0 ≤ x.toInt ∧ x.toInt ≤ MAX_MONEY) ∧ (xs.map Int64.toInt).sum ≤ MAX_MONEY ∧
        v.toInt = (xs.map Int64.toInt).sum := by
  have h := @checkedTotal_eq_some_iff MAX_MONEY MAX_MONEY_lt 0 (by decide) (by decide) xs v
  simpa only [Int64.toInt_zero, zero_add] using h

theorem isSome_checkedTotal_zero_iff (xs : List Int64) :
    (checkedTotal MAX_MONEY 0 xs).isSome ↔
      (∀ x ∈ xs, 0 ≤ x.toInt ∧ x.toInt ≤ MAX_MONEY) ∧ (xs.map Int64.toInt).sum ≤ MAX_MONEY := by
  have h := @isSome_checkedTotal_iff MAX_MONEY MAX_MONEY_lt 0 (by decide) (by decide) xs
  simpa only [Int64.toInt_zero, zero_add] using h

/-- The exact total of a list of outputs. -/
def outputsValue (vout : List CTxOut) : Int := (vout.map fun txout => txout.nValue.toInt).sum

theorem outputsValue_eq (vout : List CTxOut) :
    outputsValue vout = ((vout.map CTxOut.nValue).map Int64.toInt).sum := by
  rw [outputsValue, List.map_map]
  rfl

theorem outputsValue_nonneg {vout : List CTxOut}
    (h : ∀ txout ∈ vout, MoneyRange txout.nValue.toInt = true) : 0 ≤ outputsValue vout := by
  rw [outputsValue_eq]
  exact sum_toInt_nonneg (List.forall_mem_map.mpr fun txout ht => moneyRange_iff.mp (h txout ht))

@[simp] theorem valueOutLoop_nil (nValueOut : Int64) : valueOutLoop nValueOut [] = .ok nValueOut := rfl

theorem valueOutLoop_cons (nValueOut : Int64) (tx_out : CTxOut) (vout : List CTxOut) :
    valueOutLoop nValueOut (tx_out :: vout) =
      if MoneyRange tx_out.nValue.toInt && MoneyRange (nValueOut + tx_out.nValue).toInt then
        valueOutLoop (nValueOut + tx_out.nValue) vout
      else .error "GetValueOut: value out of range" := by
  rw [valueOutLoop]
  split_ifs <;> first | rfl | simp_all

@[simp] theorem checkOutputsLoop_nil (nValueOut : Int64) :
    checkOutputsLoop nValueOut [] = .ok nValueOut := rfl

theorem checkOutputsLoop_cons (nValueOut : Int64) (txout : CTxOut) (vout : List CTxOut) :
    checkOutputsLoop nValueOut (txout :: vout) =
      if txout.nValue < 0 then .error ⟨100, REJECT_INVALID, "bad-txns-vout-negative"⟩
      else if txout.nValue.toInt > MAX_MONEY then .error ⟨100, REJECT_INVALID, "bad-txns-vout-toolarge"⟩
      else if MoneyRange (nValueOut + txout.nValue).toInt then
        checkOutputsLoop (nValueOut + txout.nValue) vout
      else .error ⟨100, REJECT_INVALID, "bad-txns-txouttotal-toolarge"⟩ := by
  rw [checkOutputsLoop]
  split_ifs <;> first | rfl | simp_all

/-- The loop of `GetValueOut` is the checked total of the outputs' values. -/
theorem valueOutLoop_eq_ok_iff (nValueOut : Int64) (vout : List CTxOut) (v : Int64) :
    valueOutLoop nValueOut vout = .ok v ↔
      checkedTotal MAX_MONEY nValueOut (vout.map CTxOut.nValue) = some v := by
  induction vout generalizing nValueOut with
  | nil => simp
  | cons tx_out vout ih =>
    rw [valueOutLoop_cons, List.map_cons, checkedTotal_cons]
    by_cases h : MoneyRange tx_out.nValue.toInt = true ∧ MoneyRange (nValueOut + tx_out.nValue).toInt = true
    · rw [if_pos (by rw [h.1, h.2]; rfl), if_pos (checkedStep_iff.mpr h)]
      exact ih _
    · rw [if_neg (by rwa [Bool.and_eq_true]), if_neg (mt checkedStep_iff.mp h)]
      simp

/-- The outputs' check of `CheckTransaction` is the same checked total: it accepts the
outputs `GetValueOut` accepts, with the same total. -/
theorem checkOutputsLoop_eq_ok_iff (nValueOut : Int64) (vout : List CTxOut) (v : Int64) :
    checkOutputsLoop nValueOut vout = .ok v ↔
      checkedTotal MAX_MONEY nValueOut (vout.map CTxOut.nValue) = some v := by
  induction vout generalizing nValueOut with
  | nil => simp
  | cons txout vout ih =>
    rw [checkOutputsLoop_cons, List.map_cons, checkedTotal_cons]
    by_cases hout : MoneyRange txout.nValue.toInt = true
    · obtain ⟨h₁, h₂⟩ := moneyRange_iff_not_lt.mp hout
      rw [if_neg h₁, if_neg h₂]
      cases htot : MoneyRange (nValueOut + txout.nValue).toInt
      · rw [if_neg (by simp), if_neg fun h => absurd (checkedStep_iff.mp h).2 (by rw [htot]; decide)]
        simp
      · rw [if_pos rfl, if_pos (checkedStep_iff.mpr ⟨hout, htot⟩)]
        exact ih _
    · rw [if_neg fun h => hout (checkedStep_iff.mp h).1]
      have hbad : txout.nValue < 0 ∨ txout.nValue.toInt > MAX_MONEY := by
        have h := moneyRange_iff_not_lt.not.mp hout
        tauto
      rcases hbad with h₁ | h₂
      · simp [h₁]
      · by_cases h₁ : txout.nValue < 0 <;> simp [h₁, h₂]

/-- `GetValueOut` returns a value exactly where every output and the exact total of the
outputs lie in the money range, and the value is then that total: the running `int64_t`
sum never wraps. -/
theorem GetValueOut_eq_ok_iff (tx : CTransaction) (v : Int64) :
    tx.GetValueOut = .ok v ↔
      (∀ txout ∈ tx.vout, MoneyRange txout.nValue.toInt = true) ∧ outputsValue tx.vout ≤ MAX_MONEY ∧
        v.toInt = outputsValue tx.vout := by
  rw [CTransaction.GetValueOut, valueOutLoop_eq_ok_iff, checkedTotal_zero_eq_some_iff,
    ← outputsValue_eq, List.forall_mem_map]
  simp only [moneyRange_iff]

theorem checkDuplicatesLoop_eq_ok_iff (vInOutPoints : List COutPoint) (vin : List CTxIn) :
    checkDuplicatesLoop vInOutPoints vin = .ok () ↔
      (vin.map (·.prevout)).Nodup ∧ ∀ txin ∈ vin, txin.prevout ∉ vInOutPoints := by
  induction vin generalizing vInOutPoints with
  | nil => exact ⟨fun _ => ⟨List.nodup_nil, by simp⟩, fun _ => rfl⟩
  | cons txin vin ih =>
    rw [checkDuplicatesLoop]
    by_cases hdup : txin.prevout ∈ vInOutPoints
    · rw [if_pos hdup]
      exact ⟨fun h => (by cases h), fun h => (h.2 txin List.mem_cons_self hdup).elim⟩
    · rw [if_neg hdup, ih, List.map_cons, List.nodup_cons, List.forall_mem_cons]
      simp only [List.mem_map, List.mem_cons, not_or]
      constructor
      · rintro ⟨hnd, hall⟩
        exact ⟨⟨fun ⟨t, ht, heq⟩ => (hall t ht).1 heq, hnd⟩, hdup, fun t ht => (hall t ht).2⟩
      · rintro ⟨⟨hnot, hnd⟩, _, hall⟩
        exact ⟨hnd, fun t ht => ⟨fun heq => hnot ⟨t, ht, heq⟩, hall t ht⟩⟩

/-- What `CheckTransaction` accepts, over the exact amounts: inputs and outputs, a
serialized size within the block weight, each output and the exact total of the outputs
in the money range, distinct prevouts where they are checked, a coinbase script of 2 to
100 bytes, and no null prevout outside a coinbase. -/
@[mk_iff]
structure CheckedTransaction (tx : CTransaction) (fCheckDuplicateInputs : Bool) : Prop where
  vin_ne_nil : tx.vin ≠ []
  vout_ne_nil : tx.vout ≠ []
  size_le : tx.GetSerializeSize (PROTOCOL_VERSION ||| SERIALIZE_TRANSACTION_NO_WITNESS) *
      WITNESS_SCALE_FACTOR ≤ MAX_BLOCK_WEIGHT
  vout_range : ∀ txout ∈ tx.vout, MoneyRange txout.nValue.toInt = true
  total_le : outputsValue tx.vout ≤ MAX_MONEY
  nodup : fCheckDuplicateInputs = true → (tx.vin.map (·.prevout)).Nodup
  coinbase_length : tx.IsCoinBase = true → ∀ txin ∈ tx.vin,
    2 ≤ txin.scriptSig.length ∧ txin.scriptSig.length ≤ 100
  prevout_not_null : tx.IsCoinBase = false → ∀ txin ∈ tx.vin, txin.prevout.IsNull = false

theorem vin_eq_singleton_of_IsCoinBase {tx : CTransaction} (h : tx.IsCoinBase = true) :
    ∃ txin, tx.vin = [txin] := by
  unfold CTransaction.IsCoinBase at h
  split at h
  · exact ⟨_, ‹_›⟩
  · cases h

theorem exists_checkOutputsLoop_eq_ok_iff (vout : List CTxOut) :
    (∃ v, checkOutputsLoop 0 vout = .ok v) ↔
      (∀ txout ∈ vout, MoneyRange txout.nValue.toInt = true) ∧ outputsValue vout ≤ MAX_MONEY := by
  simp only [checkOutputsLoop_eq_ok_iff, ← Option.isSome_iff_exists]
  rw [isSome_checkedTotal_zero_iff, ← outputsValue_eq, List.forall_mem_map]
  simp only [moneyRange_iff]

/-- `CheckTransaction` accepts exactly the transactions `CheckedTransaction` describes. -/
theorem CheckTransaction_eq_ok_iff (tx : CTransaction) (fCheckDuplicateInputs : Bool) :
    CheckTransaction tx fCheckDuplicateInputs = .ok () ↔ CheckedTransaction tx fCheckDuplicateInputs := by
  have hdup := checkDuplicatesLoop_eq_ok_iff [] tx.vin
  rw [CheckTransaction, checkedTransaction_iff]
  simp only [except_guard_eq_ok, except_bind_eq_ok, List.isEmpty_iff, not_lt, exists_and_right,
    exists_checkOutputsLoop_eq_ok_iff, and_assoc]
  cases hcb : tx.IsCoinBase
  · cases fCheckDuplicateInputs <;> simp [hdup, except_bind_eq_ok, except_pure]
  · obtain ⟨txin, hvin⟩ := vin_eq_singleton_of_IsCoinBase hcb
    cases fCheckDuplicateInputs <;> simp [hvin, except_pure, checkDuplicatesLoop] <;> omega

theorem exists_toInt_eq {x : Int} (h₀ : 0 ≤ x) (h : x ≤ MAX_MONEY) : ∃ v : Int64, v.toInt = x := by
  have hmax := MAX_MONEY_lt
  exact ⟨Int64.ofInt x, Int64.toInt_ofInt_of_le (by omega) (by omega)⟩

/-- Outputs and their exact total in the money range have a value out, that total. -/
theorem GetValueOut_eq_of_range {tx : CTransaction}
    (hrange : ∀ txout ∈ tx.vout, MoneyRange txout.nValue.toInt = true)
    (hle : outputsValue tx.vout ≤ MAX_MONEY) :
    ∃ v, tx.GetValueOut = .ok v ∧ v.toInt = outputsValue tx.vout := by
  obtain ⟨v, hv⟩ := exists_toInt_eq (outputsValue_nonneg hrange) hle
  exact ⟨v, (GetValueOut_eq_ok_iff tx v).mpr ⟨hrange, hle, hv⟩, hv⟩

theorem valueOutLoop_error {nValueOut : Int64} {vout : List CTxOut} {what : String}
    (h : valueOutLoop nValueOut vout = .error what) : what = "GetValueOut: value out of range" := by
  induction vout generalizing nValueOut with
  | nil => cases h
  | cons tx_out vout ih =>
    rw [valueOutLoop_cons] at h
    split_ifs at h
    · exact ih h
    · cases h
      rfl

/-! ## Over the coins -/

/-- How `CheckTxInputs` ends without a fee: the transaction is invalid (the check
returns `false`), an `assert` fails, or `GetValueOut` throws. -/
inductive TxInputsError
  | invalid (failure : ValidationFailure)
  | assertion (expr : String)
  | runtime_error (what : String)
  deriving DecidableEq

section Code

variable {σ : Type} (base : CCoinsView σ)

/-- The loop of `CheckTxInputs` over the inputs, from the running total `nValueIn`. -/
def checkInputValuesLoop (nSpendHeight : Int) :
    Int64 → List CTxIn → ExceptT TxInputsError (StateM (CCoinsViewCache × σ)) Int64
  | nValueIn, [] => pure nValueIn
  | nValueIn, txin :: vin => do
    let coin ← liftM (CCoinsViewCache.AccessCoin base txin.prevout)
    failIf (coin.IsSpent = true) (.assertion "!coin.IsSpent()")
    if coin.fCoinBase && nSpendHeight - coin.nHeight < COINBASE_MATURITY then
      throw (.invalid ⟨0, REJECT_INVALID, "bad-txns-premature-spend-of-coinbase"⟩)
    let nValueIn := nValueIn + coin.out.nValue
    if !MoneyRange coin.out.nValue.toInt || !MoneyRange nValueIn.toInt then
      throw (.invalid ⟨100, REJECT_INVALID, "bad-txns-inputvalues-outofrange"⟩)
    checkInputValuesLoop nSpendHeight nValueIn vin

/-- `Consensus::CheckTxInputs`, returning the fee `txfee`. -/
def CheckTxInputs (tx : CTransaction) (nSpendHeight : Int) :
    ExceptT TxInputsError (StateM (CCoinsViewCache × σ)) Int64 := do
  if !(← liftM (CCoinsViewCache.HaveInputs base tx)) then
    throw (.invalid ⟨100, REJECT_INVALID, "bad-txns-inputs-missingorspent"⟩)
  let nValueIn ← checkInputValuesLoop base nSpendHeight 0 tx.vin
  let value_out ← match tx.GetValueOut with
    | .ok value_out => pure value_out
    | .error what => throw (.runtime_error what)
  if nValueIn < value_out then throw (.invalid ⟨100, REJECT_INVALID, "bad-txns-in-belowout"⟩)
  let txfee_aux := nValueIn - value_out
  if !MoneyRange txfee_aux.toInt then
    throw (.invalid ⟨100, REJECT_INVALID, "bad-txns-fee-outofrange"⟩)
  pure txfee_aux

end Code

/-! ## What `CheckTxInputs` returns -/

/-- What the loop of `CheckTxInputs` asks of the coin of an input where the cache reports
`coins`: there is one, and it is mature where it is a coinbase's output. -/
def InputMature (coins : UtxoMap) (nSpendHeight : Int) (txin : CTxIn) : Prop :=
  ∃ coin, coins txin.prevout = some coin ∧
    (coin.fCoinBase = true → COINBASE_MATURITY ≤ nSpendHeight - coin.nHeight)

/-- The values of the coins `coins` reports at the inputs `vin`. -/
def inputValues (coins : UtxoMap) (vin : List CTxIn) : List Int64 :=
  vin.map fun txin => ((coins txin.prevout).getD Coin.empty).out.nValue

/-- Two amounts in the money range subtract in 64 bits without wrapping. -/
theorem toInt_sub_of_moneyRange {a b : Int64} (ha : MoneyRange a.toInt = true)
    (hb : MoneyRange b.toInt = true) : (a - b).toInt = a.toInt - b.toInt := by
  rw [moneyRange_iff] at ha hb
  exact toInt_sub_of_nonneg MAX_MONEY_lt ha.1 ha.2 hb.1 hb.2

/-- The value out `GetValueOut` returns is in the money range. -/
theorem GetValueOut_moneyRange {tx : CTransaction} {value_out : Int64}
    (h : tx.GetValueOut = .ok value_out) : MoneyRange value_out.toInt = true := by
  obtain ⟨houtputs, hle, hval⟩ := (GetValueOut_eq_ok_iff tx value_out).mp h
  rw [hval, moneyRange_iff]
  exact ⟨outputsValue_nonneg houtputs, hle⟩

/-- The fee from totals in the money range, where the inputs cover the outputs: the exact
difference, inside the money range, so the fee's check passes. -/
theorem fee_moneyRange {nValueIn value_out : Int64} (hin : MoneyRange nValueIn.toInt = true)
    (hout : MoneyRange value_out.toInt = true) (hcover : ¬nValueIn < value_out) :
    (nValueIn - value_out).toInt = nValueIn.toInt - value_out.toInt ∧
      MoneyRange (nValueIn - value_out).toInt = true := by
  have hsub := toInt_sub_of_moneyRange hin hout
  rw [Int64.lt_iff_toInt_lt, not_lt] at hcover
  rw [moneyRange_iff] at hin hout
  refine ⟨hsub, ?_⟩
  rw [hsub, moneyRange_iff]
  omega

/-- The exact total of the coins `coins` reports at the inputs `vin`. -/
def inputsValue (coins : UtxoMap) (vin : List CTxIn) : Int :=
  ((inputValues coins vin).map Int64.toInt).sum

/-- What `CheckTxInputs` asks of an input where the cache reports `coins`: a mature coin
with a value in the money range. -/
def InputSpendable (coins : UtxoMap) (nSpendHeight : Int) (txin : CTxIn) : Prop :=
  InputMature coins nSpendHeight txin ∧
    MoneyRange ((coins txin.prevout).getD Coin.empty).out.nValue.toInt = true

/-- `CheckTxInputs` returning `txfee` where the cache reports `coins`: every input spends a
mature coin with a value in the money range, the exact totals of the inputs and of the
outputs are in the money range, the inputs cover the outputs, and `txfee` is the
difference. -/
structure TxInputsValid (coins : UtxoMap) (tx : CTransaction) (nSpendHeight : Int) (txfee : Int64) :
    Prop where
  inputs : ∀ txin ∈ tx.vin, InputSpendable coins nSpendHeight txin
  inputs_le : inputsValue coins tx.vin ≤ MAX_MONEY
  outputs : ∀ txout ∈ tx.vout, MoneyRange txout.nValue.toInt = true
  outputs_le : outputsValue tx.vout ≤ MAX_MONEY
  covered : outputsValue tx.vout ≤ inputsValue coins tx.vin
  fee_eq : txfee.toInt = inputsValue coins tx.vin - outputsValue tx.vout

theorem inputsValue_nonneg {coins : UtxoMap} {nSpendHeight : Int} {vin : List CTxIn}
    (h : ∀ txin ∈ vin, InputSpendable coins nSpendHeight txin) : 0 ≤ inputsValue coins vin :=
  sum_toInt_nonneg (List.forall_mem_map.mpr fun txin ht => moneyRange_iff.mp (h txin ht).2)

/-- The loop's condition from a zero total, over the exact amounts. -/
theorem inputsChecked_iff {coins : UtxoMap} {nSpendHeight : Int} {vin : List CTxIn} {v : Int64} :
    ((∀ txin ∈ vin, InputMature coins nSpendHeight txin) ∧
        checkedTotal MAX_MONEY 0 (inputValues coins vin) = some v) ↔
      (∀ txin ∈ vin, InputSpendable coins nSpendHeight txin) ∧ inputsValue coins vin ≤ MAX_MONEY ∧
        v.toInt = inputsValue coins vin := by
  rw [checkedTotal_zero_eq_some_iff, ← inputsValue]
  simp only [inputValues, List.forall_mem_map, InputSpendable, moneyRange_iff, imp_and, forall_and,
    and_assoc]

/-- Valid inputs are all reported, so `HaveInputs` finds them. -/
theorem TxInputsValid.haveInputs {coins : UtxoMap} {tx : CTransaction} {nSpendHeight : Int}
    {txfee : Int64} (h : TxInputsValid coins tx nSpendHeight txfee) :
    (tx.IsCoinBase || tx.vin.all fun txin => (coins txin.prevout).isSome) = true := by
  simp only [Bool.or_eq_true, List.all_eq_true]
  refine Or.inr fun txin ht => ?_
  obtain ⟨coin, hcoin, -⟩ := (h.inputs txin ht).1
  rw [hcoin]
  rfl

/-- Valid inputs pass the checks of the loop, with their exact total. -/
theorem TxInputsValid.inputsChecked {coins : UtxoMap} {tx : CTransaction} {nSpendHeight : Int}
    {txfee : Int64} (h : TxInputsValid coins tx nSpendHeight txfee) :
    ∃ v, (∀ txin ∈ tx.vin, InputMature coins nSpendHeight txin) ∧
      checkedTotal MAX_MONEY 0 (inputValues coins tx.vin) = some v := by
  obtain ⟨v, hv⟩ := exists_toInt_eq (inputsValue_nonneg h.inputs) h.inputs_le
  exact ⟨v, inputsChecked_iff.mpr ⟨h.inputs, h.inputs_le, hv⟩⟩

/-- How the loop of `CheckTxInputs` can end: with a total in the money range, or with the
failed assertion, a premature spend or a value out of range. -/
def LoopOutcome : Except TxInputsError Int64 → Prop
  | .ok v => MoneyRange v.toInt = true
  | .error e => e = .assertion "!coin.IsSpent()" ∨
      e = .invalid ⟨0, REJECT_INVALID, "bad-txns-premature-spend-of-coinbase"⟩ ∨
      e = .invalid ⟨100, REJECT_INVALID, "bad-txns-inputvalues-outofrange"⟩

/-- How `CheckTxInputs` can end: with a fee in the money range, or with one of the
failures of the checks before the fee's. -/
def TxInputsOutcome : Except TxInputsError Int64 → Prop
  | .ok txfee => MoneyRange txfee.toInt = true
  | .error e => e ∈ [.invalid ⟨100, REJECT_INVALID, "bad-txns-inputs-missingorspent"⟩,
      .assertion "!coin.IsSpent()",
      .invalid ⟨0, REJECT_INVALID, "bad-txns-premature-spend-of-coinbase"⟩,
      .invalid ⟨100, REJECT_INVALID, "bad-txns-inputvalues-outofrange"⟩,
      .runtime_error "GetValueOut: value out of range",
      .invalid ⟨100, REJECT_INVALID, "bad-txns-in-belowout"⟩]

section AnyView

variable {σ : Type} (base : CCoinsView σ)

theorem checkInputValuesLoop_cons (nSpendHeight : Int) (nValueIn : Int64) (txin : CTxIn)
    (vin : List CTxIn) :
    checkInputValuesLoop base nSpendHeight nValueIn (txin :: vin) = (do
      let coin ← liftM (CCoinsViewCache.AccessCoin base txin.prevout)
      failIf (coin.IsSpent = true) (.assertion "!coin.IsSpent()")
      failIf (coin.fCoinBase = true ∧ nSpendHeight - coin.nHeight < COINBASE_MATURITY)
        (.invalid ⟨0, REJECT_INVALID, "bad-txns-premature-spend-of-coinbase"⟩)
      failIf (¬(MoneyRange coin.out.nValue.toInt = true ∧
          MoneyRange (nValueIn + coin.out.nValue).toInt = true))
        (.invalid ⟨100, REJECT_INVALID, "bad-txns-inputvalues-outofrange"⟩)
      checkInputValuesLoop base nSpendHeight (nValueIn + coin.out.nValue) vin) := by
  rw [checkInputValuesLoop]
  congr 1
  funext coin
  congr 1
  funext u
  simp only [failIf, Bool.and_eq_true, decide_eq_true_eq, Bool.or_eq_true, Bool.not_eq_true', not_and_or,
    Bool.not_eq_true]
  split_ifs <;> rfl

/-- Over any view, the loop of `CheckTxInputs` from a total in the money range ends as
`LoopOutcome` says. -/
theorem checkInputValuesLoop_outcome (nSpendHeight : Int) :
    ∀ (vin : List CTxIn) (nValueIn : Int64) (s : CCoinsViewCache × σ), MoneyRange nValueIn.toInt = true →
      LoopOutcome ((checkInputValuesLoop base nSpendHeight nValueIn vin).run.run s).1
  | [], _, _, h => h
  | txin :: vin, nValueIn, s, _ => by
    rw [checkInputValuesLoop_cons, run_liftM_bind]
    rcases (CCoinsViewCache.AccessCoin base txin.prevout).run s with ⟨coin, s₁⟩
    dsimp only
    by_cases hs : coin.IsSpent = true
    · rw [failIf_pos _ hs, run_throw_bind]
      exact Or.inl rfl
    rw [failIf_neg _ hs, pure_bind]
    by_cases hyoung : coin.fCoinBase = true ∧ nSpendHeight - coin.nHeight < COINBASE_MATURITY
    · rw [failIf_pos _ hyoung, run_throw_bind]
      exact Or.inr (Or.inl rfl)
    rw [failIf_neg _ hyoung, pure_bind]
    by_cases hrange : MoneyRange coin.out.nValue.toInt = true ∧
        MoneyRange (nValueIn + coin.out.nValue).toInt = true
    · rw [failIf_neg _ (not_not_intro hrange), pure_bind]
      exact checkInputValuesLoop_outcome nSpendHeight vin _ s₁ hrange.2
    · rw [failIf_pos _ hrange, run_throw_bind]
      exact Or.inr (Or.inr rfl)

/-- Over any view, `CheckTxInputs` ends as `TxInputsOutcome` says: it never fails with
`bad-txns-fee-outofrange`, whose check every fee it computes passes. -/
theorem CheckTxInputs_outcome (tx : CTransaction) (nSpendHeight : Int) (s : CCoinsViewCache × σ) :
    TxInputsOutcome ((CheckTxInputs base tx nSpendHeight).run.run s).1 := by
  rw [CheckTxInputs, run_liftM_bind]
  rcases (CCoinsViewCache.HaveInputs base tx).run s with ⟨fHave, s₁⟩
  dsimp only
  cases fHave
  · rw [Bool.not_false, if_pos rfl, run_throw_bind]
    simp [TxInputsOutcome]
  rw [Bool.not_true, if_neg Bool.false_ne_true, run_bind]
  have hloop := checkInputValuesLoop_outcome base nSpendHeight tx.vin 0 s₁ (by decide)
  revert hloop
  rcases (checkInputValuesLoop base nSpendHeight 0 tx.vin).run.run s₁ with ⟨r, s₂⟩
  intro hloop
  cases r with
  | error e =>
    rcases hloop with rfl | rfl | rfl <;> simp [TxInputsOutcome]
  | ok nValueIn =>
    dsimp only
    cases hout : tx.GetValueOut with
    | error what =>
      rw [valueOutLoop_error hout]
      show TxInputsOutcome (.error (.runtime_error "GetValueOut: value out of range"))
      simp [TxInputsOutcome]
    | ok value_out =>
      dsimp only
      rw [pure_bind]
      by_cases hlt : nValueIn < value_out
      · rw [if_pos hlt, run_throw_bind]
        simp [TxInputsOutcome]
      · have hrange := (fee_moneyRange hloop (GetValueOut_moneyRange hout) hlt).2
        rw [if_neg hlt, if_neg (by rw [hrange]; decide)]
        exact hrange

end AnyView

section LawfulParent

variable {σ : Type} {top : σ → RefLayer} {below : σ → List RefLayer} {Inv : σ → Prop}
  {base : CCoinsView σ} {Ready : UInt256 → Prop} (hV : LawfulView top below Inv base Ready)
include hV

theorem haveInputsLoop_run : ∀ (vin : List CTxIn) (p : CCoinsViewCache × σ), cacheInv top Inv p →
    ∃ p', (CCoinsViewCache.haveInputsLoop base vin).run p =
        (vin.all fun txin => ((cacheTop top p).coins txin.prevout).isSome, p') ∧
      CacheMoved top below Inv p p' (cacheTop top p).coins
  | [], p, hinv => ⟨p, rfl, CacheMoved.refl hinv⟩
  | txin :: vin, (c, s), hinv => by
    obtain ⟨c₁, s₁, hrun₁, hsame⟩ := HaveCoin_run hV c s hinv txin.prevout
    have hmoved₁ := CacheMoved.of_sameReports hsame
    rw [List.all_cons]
    cases hhave : ((cacheTop top (c, s)).coins txin.prevout).isSome with
    | false =>
      refine ⟨(c₁, s₁), ?_, hmoved₁⟩
      rw [CCoinsViewCache.haveInputsLoop, stateRun_bind_of_eq hrun₁, hhave]
      rfl
    | true =>
      obtain ⟨p₂, hrun₂, hmoved₂⟩ := haveInputsLoop_run vin (c₁, s₁) hmoved₁.inv
      rw [hmoved₁.coins] at hrun₂ hmoved₂
      refine ⟨p₂, ?_, hmoved₁.trans hmoved₂⟩
      rw [CCoinsViewCache.haveInputsLoop, stateRun_bind_of_eq hrun₁, hhave]
      exact hrun₂

theorem HaveInputs_run (p : CCoinsViewCache × σ) (hinv : cacheInv top Inv p) (tx : CTransaction) :
    ∃ p', (CCoinsViewCache.HaveInputs base tx).run p =
        (tx.IsCoinBase || tx.vin.all fun txin => ((cacheTop top p).coins txin.prevout).isSome, p') ∧
      CacheMoved top below Inv p p' (cacheTop top p).coins := by
  unfold CCoinsViewCache.HaveInputs
  cases tx.IsCoinBase
  · exact haveInputsLoop_run hV tx.vin p hinv
  · exact ⟨p, rfl, CacheMoved.refl hinv⟩

/-- The loop of `CheckTxInputs` from a cache that stays coherent: it changes nothing the
cache reports, and returns a total exactly where every input's coin is reported and
mature and the checked total of their values passes, with that total. -/
theorem checkInputValuesLoop_run (nSpendHeight : Int) :
    ∀ (vin : List CTxIn) (nValueIn : Int64) (p : CCoinsViewCache × σ), cacheInv top Inv p →
      ∃ r p', (checkInputValuesLoop base nSpendHeight nValueIn vin).run.run p = (r, p') ∧
        CacheMoved top below Inv p p' (cacheTop top p).coins ∧
        ∀ v, r = .ok v ↔ (∀ txin ∈ vin, InputMature (cacheTop top p).coins nSpendHeight txin) ∧
          checkedTotal MAX_MONEY nValueIn (inputValues (cacheTop top p).coins vin) = some v
  | [], nValueIn, p, hinv => ⟨.ok nValueIn, p, rfl, CacheMoved.refl hinv, fun v => by
      simp [inputValues]⟩
  | txin :: vin, nValueIn, (c, s), hinv => by
    obtain ⟨coin, c₁, s₁, hrun₁, hview, hsame⟩ := AccessCoin_run hV c s hinv txin.prevout
    have hmoved₁ := CacheMoved.of_sameReports hsame
    rw [checkInputValuesLoop_cons, run_liftM_bind, hrun₁, List.forall_mem_cons, inputValues,
      List.map_cons, ← inputValues, checkedTotal_cons]
    dsimp only
    cases hs : coin.IsSpent with
    | true =>
      have hnone : (cacheTop top (c, s)).coins txin.prevout = none := by
        rw [← hview, Coin.unspent, hs, if_pos rfl]
      refine ⟨_, _, by rw [failIf_pos _ rfl, run_throw_bind], hmoved₁, fun v => ?_⟩
      simp [InputMature, hnone]
    | false =>
      have hsome : (cacheTop top (c, s)).coins txin.prevout = some coin := by
        rw [← hview, Coin.unspent, hs, if_neg Bool.false_ne_true]
      rw [failIf_neg _ Bool.false_ne_true, pure_bind, hsome, Option.getD_some]
      by_cases hyoung : coin.fCoinBase = true ∧ nSpendHeight - coin.nHeight < COINBASE_MATURITY
      · refine ⟨_, _, by rw [failIf_pos _ hyoung, run_throw_bind], hmoved₁, fun v => ?_⟩
        simp only [InputMature, hsome, Option.some.injEq, exists_eq_left']
        exact ⟨fun h => (by cases h), fun h => absurd (h.1.1 hyoung.1) (not_le.mpr hyoung.2)⟩
      · have hmature : InputMature (cacheTop top (c, s)).coins nSpendHeight txin :=
          ⟨coin, hsome, fun hcb => le_of_not_gt fun hlt => hyoung ⟨hcb, hlt⟩⟩
        rw [failIf_neg _ hyoung, pure_bind]
        by_cases hrange : MoneyRange coin.out.nValue.toInt = true ∧
            MoneyRange (nValueIn + coin.out.nValue).toInt = true
        · rw [failIf_neg _ (not_not_intro hrange), pure_bind, if_pos (checkedStep_iff.mpr hrange)]
          obtain ⟨r, p', hrun, hmoved₂, hiff⟩ :=
            checkInputValuesLoop_run nSpendHeight vin (nValueIn + coin.out.nValue) (c₁, s₁) hmoved₁.inv
          rw [hmoved₁.coins] at hmoved₂ hiff
          refine ⟨r, p', hrun, hmoved₁.trans hmoved₂, fun v => ?_⟩
          rw [hiff v]
          simp only [hmature, true_and]
        · refine ⟨_, _, by rw [failIf_pos _ hrange, run_throw_bind], hmoved₁, fun v => ?_⟩
          rw [if_neg (mt checkedStep_iff.mp hrange)]
          simp

/-- `CheckTxInputs` from a cache that stays coherent: it changes nothing the cache
reports, and returns a fee exactly where `TxInputsValid` holds of the coins the cache
reports, that fee. -/
theorem CheckTxInputs_run (p : CCoinsViewCache × σ) (hinv : cacheInv top Inv p) (tx : CTransaction)
    (nSpendHeight : Int) :
    ∃ r p', (CheckTxInputs base tx nSpendHeight).run.run p = (r, p') ∧
      CacheMoved top below Inv p p' (cacheTop top p).coins ∧
      ∀ txfee, r = .ok txfee ↔ TxInputsValid (cacheTop top p).coins tx nSpendHeight txfee := by
  obtain ⟨p₁, hrun₁, hmoved₁⟩ := HaveInputs_run hV p hinv tx
  rw [CheckTxInputs, run_liftM_bind, hrun₁]
  dsimp only
  by_cases hhave : (tx.IsCoinBase || tx.vin.all fun txin => ((cacheTop top p).coins txin.prevout).isSome) = true
  · rw [if_neg (by simp [hhave])]
    obtain ⟨r₂, p₂, hrun₂, hmoved₂, hiff₂⟩ :=
      checkInputValuesLoop_run hV nSpendHeight tx.vin 0 p₁ hmoved₁.inv
    rw [hmoved₁.coins] at hmoved₂ hiff₂
    rw [run_bind, hrun₂]
    cases r₂ with
    | error e =>
      refine ⟨_, _, rfl, hmoved₁.trans hmoved₂, fun txfee => ⟨fun h => (by cases h), fun hvalid => ?_⟩⟩
      obtain ⟨v, hv⟩ := hvalid.inputsChecked
      cases (hiff₂ v).mpr hv
    | ok nValueIn =>
      obtain ⟨hinputs, hin_le, hin⟩ := inputsChecked_iff.mp ((hiff₂ nValueIn).mp rfl)
      dsimp only
      cases hout : tx.GetValueOut with
      | error what =>
        refine ⟨_, _, rfl, hmoved₁.trans hmoved₂, fun txfee => ⟨fun h => (by cases h), fun hvalid => ?_⟩⟩
        obtain ⟨v, hv, -⟩ := GetValueOut_eq_of_range hvalid.outputs hvalid.outputs_le
        rw [hout] at hv
        cases hv
      | ok value_out =>
        obtain ⟨houtputs, hout_le, hval⟩ := (GetValueOut_eq_ok_iff tx value_out).mp hout
        dsimp only
        rw [pure_bind]
        by_cases hlt : nValueIn < value_out
        · rw [if_pos hlt, run_throw_bind]
          refine ⟨_, _, rfl, hmoved₁.trans hmoved₂, fun txfee => ⟨fun h => (by cases h), fun hvalid => ?_⟩⟩
          rw [Int64.lt_iff_toInt_lt, hin, hval] at hlt
          exact absurd hvalid.covered (not_le.mpr hlt)
        · have hin_range : MoneyRange nValueIn.toInt = true := by
            rw [hin, moneyRange_iff]
            exact ⟨inputsValue_nonneg hinputs, hin_le⟩
          obtain ⟨hsub, hrange⟩ := fee_moneyRange hin_range (GetValueOut_moneyRange hout) hlt
          have hfee : (nValueIn - value_out).toInt =
              inputsValue (cacheTop top p).coins tx.vin - outputsValue tx.vout := by
            rw [hsub, hin, hval]
          have hcover : outputsValue tx.vout ≤ inputsValue (cacheTop top p).coins tx.vin := by
            rw [Int64.lt_iff_toInt_lt, hin, hval] at hlt
            omega
          rw [if_neg hlt, if_neg (by rw [hrange]; decide)]
          refine ⟨_, _, rfl, hmoved₁.trans hmoved₂, fun txfee => ⟨fun h => ?_, fun hvalid => ?_⟩⟩
          · cases h
            exact ⟨hinputs, hin_le, houtputs, hout_le, hcover, hfee⟩
          · rw [Int64.toInt_inj.mp (hfee.trans hvalid.fee_eq.symm)]
  · rw [if_pos (by simpa using hhave), run_throw_bind]
    exact ⟨_, _, rfl, hmoved₁, fun txfee =>
      ⟨fun h => (by cases h), fun hvalid => (hhave hvalid.haveInputs).elim⟩⟩

end LawfulParent

theorem CheckTxInputs_run_spendTx :
    ∃ r p', (CheckTxInputs CCoinsViewDB.view spendTx 2).run.run oneCoinCache = (r, p') ∧
      CacheMoved dbTop (fun _ => []) DBInv oneCoinCache p' (cacheTop dbTop oneCoinCache).coins ∧
      ∀ txfee, r = .ok txfee ↔ TxInputsValid (cacheTop dbTop oneCoinCache).coins spendTx 2 txfee :=
  CheckTxInputs_run db_lawful oneCoinCache (singleCoinDB_inv (by decide) onesHash) spendTx 2

end BitcoinPQ

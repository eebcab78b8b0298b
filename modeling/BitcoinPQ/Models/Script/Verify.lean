import BitcoinPQ.Models.Script.Interpreter

/-!
# Verifying an input

`VerifyScript` runs the `scriptSig`, then the `scriptPubKey` on the stack it leaves,
then by the flags the witness program (version 0, or this fork's version 1 hashed
with SHAKE128) and the pay-to-script-hash redeem script, and last the clean-stack and
unexpected-witness rules. Beside it, `CountWitnessSigOps` counts the signature
operations of the witness the way `GetTransactionSigOpCost` charges them.

`VerifyScript` asserts that `CLEANSTACK` comes with `P2SH` and `WITNESS`, and `WITNESS`
with `P2SH`; the assertions stand after every evaluation and abort the process, so the
model leaves them out and results about verification assume them.
-/

namespace BitcoinPQ

open Relax ScriptError

/-- `CScriptWitness::IsNull`. -/
def CScriptWitness.IsNull (w : CScriptWitness) : Bool := w.stack.isEmpty

/-- The flag dependencies that `VerifyScript` asserts. -/
def FlagsConsistent (flags : UInt32) : Prop :=
  (hasFlag flags SCRIPT_VERIFY_CLEANSTACK →
      hasFlag flags SCRIPT_VERIFY_P2SH ∧ hasFlag flags SCRIPT_VERIFY_WITNESS) ∧
    (hasFlag flags SCRIPT_VERIFY_WITNESS → hasFlag flags SCRIPT_VERIFY_P2SH)

instance (flags : UInt32) : Decidable (FlagsConsistent flags) :=
  inferInstanceAs (Decidable (_ ∧ _))

section Verify

variable {σ : Type} (flags : UInt32) (checker : BaseSignatureChecker σ) (crypto : ScriptCrypto)

/-- The script and the initial stack of a witness program; `none` for a version that
passes unevaluated. Witness stacks are stored bottom first. -/
def witnessProgramScript (witness : CScriptWitness) (witversion : Nat) (program : List UInt8) :
    ScriptM σ (Option (CScript × List valtype)) :=
  if witversion = 0 then
    if program.length = 32 then
      match witness.stack.getLast? with
      | none => throw SCRIPT_ERR_WITNESS_PROGRAM_WITNESS_EMPTY
      | some scriptPubKey =>
        if crypto.sha256 scriptPubKey ≠ program then throw SCRIPT_ERR_WITNESS_PROGRAM_MISMATCH
        else pure (some (scriptPubKey, witness.stack.dropLast.reverse))
    else if program.length = 20 then
      -- pay-to-witness-pubkey-hash: signature and key in the witness
      if witness.stack.length ≠ 2 then throw SCRIPT_ERR_WITNESS_PROGRAM_MISMATCH
      else pure (some ([OP_DUP, OP_HASH160] ++ pushData program ++ [OP_EQUALVERIFY, OP_CHECKSIG],
        witness.stack.reverse))
    else throw SCRIPT_ERR_WITNESS_PROGRAM_WRONG_LENGTH
  else if witversion = 1 then
    if program.length = 32 then
      match witness.stack.getLast? with
      | none => throw SCRIPT_ERR_WITNESS_PROGRAM_WITNESS_EMPTY
      | some scriptPubKey =>
        if crypto.hash256_shake128 scriptPubKey ≠ program then
          throw SCRIPT_ERR_WITNESS_PROGRAM_MISMATCH
        else pure (some (scriptPubKey, witness.stack.dropLast.reverse))
    else throw SCRIPT_ERR_WITNESS_PROGRAM_WRONG_LENGTH
  else if hasFlag flags SCRIPT_VERIFY_DISCOURAGE_UPGRADABLE_WITNESS_PROGRAM then
    throw SCRIPT_ERR_DISCOURAGE_UPGRADABLE_WITNESS_PROGRAM
  -- higher versions pass, for future soft forks
  else pure none

/-- `VerifyWitnessProgram`. -/
def VerifyWitnessProgram (witness : CScriptWitness) (witversion : Nat) (program : List UInt8) :
    ScriptM σ Unit := do
  let some (scriptPubKey, stack) ← witnessProgramScript flags crypto witness witversion program
    | pure ()
  failIf (stack.any (·.length > MAX_SCRIPT_ELEMENT_SIZE)) SCRIPT_ERR_PUSH_SIZE
  let sigversion := if witversion = 1 then SigVersion.SIGVERSION_WITNESS_V1
    else SigVersion.SIGVERSION_WITNESS_V0
  let stack ← EvalScript flags checker crypto sigversion stack scriptPubKey
  -- scripts inside witness implicitly require clean-stack behaviour
  match stack with
  | [top] => if CastToBool top then pure () else throw SCRIPT_ERR_EVAL_FALSE
  | _ => throw SCRIPT_ERR_EVAL_FALSE

/-- The end of a successful evaluation: a non-empty stack whose top is true. -/
def requireTrue (stack : List valtype) : ScriptM σ Unit :=
  match stack with
  | top :: _ => if CastToBool top then pure () else throw SCRIPT_ERR_EVAL_FALSE
  | [] => throw SCRIPT_ERR_EVAL_FALSE

/-- `stack.resize(1)` on a non-empty stack: its bottom element. -/
def resize1 (stack : List valtype) : List valtype := stack.drop (stack.length - 1)

/-- The pay-to-script-hash part of `VerifyScript`: the redeem script on the stack the
`scriptSig` left, and a witness program it may be. Returns the final stack and
whether a witness program was verified. -/
def verifyP2SH (scriptSig : CScript) (witness : CScriptWitness) (stackCopy : List valtype) :
    ScriptM σ (List valtype × Bool) := do
  failIf (!IsPushOnly scriptSig) SCRIPT_ERR_SIG_PUSHONLY
  -- the stack the `scriptSig` left is not empty, or the `scriptPubKey` would have failed
  let pubKeySerialized :: stack := stackCopy | throw SCRIPT_ERR_UNKNOWN_ERROR
  let pubKey2 : CScript := pubKeySerialized
  let stack ← EvalScript flags checker crypto .SIGVERSION_BASE stack pubKey2
  requireTrue stack
  if hasFlag flags SCRIPT_VERIFY_WITNESS then
    match IsWitnessProgram pubKey2 with
    | some (witnessversion, witnessprogram) =>
      failIf (scriptSig ≠ pushData pubKey2) SCRIPT_ERR_WITNESS_MALLEATED_P2SH
      VerifyWitnessProgram flags checker crypto witness witnessversion witnessprogram
      pure (resize1 stack, true)
    | none => pure (stack, false)
  else pure (stack, false)

/-- `VerifyScript`. -/
def VerifyScript (scriptSig scriptPubKey : CScript) (witness : CScriptWitness) :
    ScriptM σ Unit := do
  failIf (hasFlag flags SCRIPT_VERIFY_SIGPUSHONLY && !IsPushOnly scriptSig) SCRIPT_ERR_SIG_PUSHONLY
  let stack ← EvalScript flags checker crypto .SIGVERSION_BASE [] scriptSig
  let stackCopy := stack
  let stack ← EvalScript flags checker crypto .SIGVERSION_BASE stack scriptPubKey
  requireTrue stack
  -- bare witness programs
  let (stack, hadWitness) ← (
    if hasFlag flags SCRIPT_VERIFY_WITNESS then
      match IsWitnessProgram scriptPubKey with
      | some (witnessversion, witnessprogram) => do
        failIf (scriptSig.length ≠ 0) SCRIPT_ERR_WITNESS_MALLEATED
        VerifyWitnessProgram flags checker crypto witness witnessversion witnessprogram
        pure (resize1 stack, true)
      | none => pure (stack, false)
    else pure (stack, false))
  -- pay-to-script-hash
  let (stack, hadWitness) ← (
    if hasFlag flags SCRIPT_VERIFY_P2SH && IsPayToScriptHash scriptPubKey then do
      let (stack, hadP2SHWitness) ← verifyP2SH flags checker crypto scriptSig witness stackCopy
      pure (stack, hadWitness || hadP2SHWitness)
    else pure (stack, hadWitness))
  failIf (hasFlag flags SCRIPT_VERIFY_CLEANSTACK && stack.length ≠ 1) SCRIPT_ERR_CLEANSTACK
  failIf (hasFlag flags SCRIPT_VERIFY_WITNESS && !hadWitness && !witness.IsNull)
    SCRIPT_ERR_WITNESS_UNEXPECTED

end Verify

/-! ## Witness signature operations -/

/-- `WitnessSigOps`: one for a key-hash program, the accurate count of the witness
script for a script-hash program, of version 0 or 1. -/
def WitnessSigOps (witversion : Nat) (witprogram : List UInt8) (witness : CScriptWitness) : Nat :=
  if witversion = 0 ∨ witversion = 1 then
    if witprogram.length = 20 then 1
    else if witprogram.length = 32 then
      match witness.stack.getLast? with
      | some subscript => GetSigOpCount subscript true
      | none => 0
    else 0
  else 0

theorem WitnessSigOps_of_length_20 {witversion : Nat} {witprogram : List UInt8}
    (witness : CScriptWitness) (hv : witversion = 0 ∨ witversion = 1) (hlen : witprogram.length = 20) :
    WitnessSigOps witversion witprogram witness = 1 := by
  rw [WitnessSigOps, if_pos hv, if_pos hlen]

theorem WitnessSigOps_of_getLast {witversion : Nat} {witprogram : List UInt8}
    {witness : CScriptWitness} {subscript : CScript} (hv : witversion = 0 ∨ witversion = 1)
    (hlen : witprogram.length = 32) (hsub : witness.stack.getLast? = some subscript) :
    WitnessSigOps witversion witprogram witness = GetSigOpCount subscript true := by
  rw [WitnessSigOps, if_pos hv, if_neg (by omega), if_pos hlen, hsub]

/-- The scan of `CountWitnessSigOps` for the last data a `scriptSig` pushes; a failed
`GetOp` clears the data and the scan goes on after the bytes it consumed. -/
def lastData (data : List UInt8) (pc : List UInt8) : List UInt8 :=
  if h : pc = [] then data else
    have : (GetOp2 pc).2.2.2.length < pc.length := GetOp2_length_lt h
    lastData (GetOp2 pc).2.2.1 (GetOp2 pc).2.2.2
termination_by pc.length

theorem lastData_nil (data : List UInt8) : lastData data [] = data := by
  rw [lastData, dif_pos rfl]

theorem lastData_of_GetOp2 {pc pc' : List UInt8} {fOk : Bool} {opcode : opcodetype}
    {data : valtype} (hpc : pc ≠ []) (hop : GetOp2 pc = (fOk, opcode, data, pc'))
    (vData : List UInt8) : lastData vData pc = lastData data pc' := by
  rw [lastData, dif_neg hpc]
  simp only [hop]

/-- `CountWitnessSigOps`, which asserts that `WITNESS` comes with `P2SH`. -/
def CountWitnessSigOps (scriptSig scriptPubKey : CScript) (witness : CScriptWitness)
    (flags : UInt32) : Nat :=
  if !hasFlag flags SCRIPT_VERIFY_WITNESS then 0 else
    match IsWitnessProgram scriptPubKey with
    | some (witnessversion, witnessprogram) => WitnessSigOps witnessversion witnessprogram witness
    | none =>
      if IsPayToScriptHash scriptPubKey && IsPushOnly scriptSig then
        match IsWitnessProgram (lastData [] scriptSig) with
        | some (witnessversion, witnessprogram) =>
          WitnessSigOps witnessversion witnessprogram witness
        | none => 0
      else 0

/-- A pay-to-script-hash script starts with `OP_HASH160`, which is no version opcode. -/
theorem IsWitnessProgram_of_IsPayToScriptHash {script : CScript}
    (h : IsPayToScriptHash script = true) : IsWitnessProgram script = none := by
  match script, h with
  | [], _ => rfl
  | [_], _ => rfl
  | op :: len :: program, h =>
    have hop : op = OP_HASH160 := by
      simp only [IsPayToScriptHash, Bool.and_eq_true, beq_iff_eq] at h
      simpa using h.1.1.2
    subst hop
    have hlen : (OP_HASH160 :: len :: program).length = 23 := by
      simp only [IsPayToScriptHash, Bool.and_eq_true, beq_iff_eq] at h
      exact h.1.1.1
    simp only [IsWitnessProgram, hlen]
    rw [if_neg (by decide), if_pos (by decide)]

/-- A witness program charged as itself. -/
theorem CountWitnessSigOps_of_IsWitnessProgram {scriptSig scriptPubKey : CScript}
    {witness : CScriptWitness} {flags : UInt32} {witversion : Nat} {witprogram : List UInt8}
    (hW : hasFlag flags SCRIPT_VERIFY_WITNESS = true)
    (hwp : IsWitnessProgram scriptPubKey = some (witversion, witprogram)) :
    CountWitnessSigOps scriptSig scriptPubKey witness flags =
      WitnessSigOps witversion witprogram witness := by
  rw [CountWitnessSigOps, hW, Bool.not_true, if_neg Bool.false_ne_true, hwp]

/-- A witness program nested in pay-to-script-hash, charged through the last push. -/
theorem CountWitnessSigOps_of_IsPayToScriptHash {scriptSig scriptPubKey : CScript}
    {witness : CScriptWitness} {flags : UInt32} {witversion : Nat} {witprogram : List UInt8}
    (hW : hasFlag flags SCRIPT_VERIFY_WITNESS = true) (hp2sh : IsPayToScriptHash scriptPubKey = true)
    (hpush : IsPushOnly scriptSig = true)
    (hwp : IsWitnessProgram (lastData [] scriptSig) = some (witversion, witprogram)) :
    CountWitnessSigOps scriptSig scriptPubKey witness flags =
      WitnessSigOps witversion witprogram witness := by
  rw [CountWitnessSigOps, hW, Bool.not_true, if_neg Bool.false_ne_true,
    IsWitnessProgram_of_IsPayToScriptHash hp2sh, hp2sh, hpush, Bool.and_self, if_pos rfl, hwp]

end BitcoinPQ

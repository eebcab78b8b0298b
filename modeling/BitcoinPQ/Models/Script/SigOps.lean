import BitcoinPQ.Core.Cost
import BitcoinPQ.Models.Script.Verify

/-!
# Signature operations

`GetTransactionSigOpCost` charges an input for the signature operations its scripts
count without running them; the interpreter calls `CheckSig` as it runs them. A
checker is wrapped so that it counts its calls, and every stage of `VerifyScript` is
shown to make at most as many calls as its static count: an executed `OP_CHECKSIG`
makes one, an `OP_CHECKMULTISIG` at most its key count, and that count is the number
the `OP_N` before it pushed whenever that instruction ran. The redeem script of
pay-to-script-hash is the last push of the `scriptSig`, which is what the static
count reads.
-/

namespace BitcoinPQ

open Relax ScriptError

/-! ## Counting calls -/

/-- A checker whose `CheckSig` raises the counter `c` by at most one and whose lock-time
checks leave it alone. -/
structure SigCounter {σ : Type} (c : σ → Nat) (checker : BaseSignatureChecker σ) : Prop where
  CheckSig_le : ∀ vchSig vchPubKey scriptCode sigversion s,
    c ((checker.CheckSig vchSig vchPubKey scriptCode sigversion).run s).2 ≤ c s + 1
  CheckLockTime_le : ∀ nLockTime s, c ((checker.CheckLockTime nLockTime).run s).2 ≤ c s
  CheckSequence_le : ∀ nSequence s, c ((checker.CheckSequence nSequence).run s).2 ≤ c s

/-- `checker`, with the number of its `CheckSig` calls kept beside its own state. -/
def BaseSignatureChecker.counting {σ : Type} (checker : BaseSignatureChecker σ) :
    BaseSignatureChecker (σ × Nat) where
  CheckSig vchSig vchPubKey scriptCode sigversion := fun p =>
    let r := (checker.CheckSig vchSig vchPubKey scriptCode sigversion).run p.1
    (r.1, (r.2, p.2 + 1))
  CheckLockTime nLockTime := fun p =>
    let r := (checker.CheckLockTime nLockTime).run p.1
    (r.1, (r.2, p.2))
  CheckSequence nSequence := fun p =>
    let r := (checker.CheckSequence nSequence).run p.1
    (r.1, (r.2, p.2))

theorem BaseSignatureChecker.counting_sigCounter {σ : Type} (checker : BaseSignatureChecker σ) :
    SigCounter Prod.snd checker.counting where
  CheckSig_le _ _ _ _ _ := Nat.le_refl _
  CheckLockTime_le _ _ := Nat.le_refl _
  CheckSequence_le _ _ := Nat.le_refl _

/-! ## Opcodes and small numbers -/

/-- A fact about every opcode, checked over the byte values. -/
@[elab_as_elim]
theorem opcode_cases {P : opcodetype → Prop} (h : ∀ n < 256, P (UInt8.ofNat n)) (o : opcodetype) :
    P o := by
  have ho := h o.toNat (UInt8.toNat_lt o)
  rwa [UInt8.ofNat_toNat] at ho

/-- A fact about the `k` opcodes from `lo` on, checked over those byte values. -/
@[elab_as_elim]
theorem opcode_range_cases {P : opcodetype → Prop} (lo k : Nat) (h : ∀ n < k, P (UInt8.ofNat (lo + n)))
    (o : opcodetype) (hlo : lo ≤ o.toNat) (hhi : o.toNat < lo + k) : P o := by
  have ho := h (o.toNat - lo) (by omega)
  rwa [Nat.add_sub_cancel' hlo, UInt8.ofNat_toNat] at ho

/-- Which opcodes decode to a signature check, over all byte values at once. -/
theorem Op.ofOpcode_checkSig_table : ∀ n < 256, ∀ fVerify : Bool,
    (Op.ofOpcode (UInt8.ofNat n) = .checkSig fVerify →
      UInt8.ofNat n = OP_CHECKSIG ∨ UInt8.ofNat n = OP_CHECKSIGVERIFY) ∧
    (Op.ofOpcode (UInt8.ofNat n) = .checkMultiSig fVerify →
      UInt8.ofNat n = OP_CHECKMULTISIG ∨ UInt8.ofNat n = OP_CHECKMULTISIGVERIFY) := by
  decide +kernel

theorem Op.ofOpcode_eq_checkSig {o : opcodetype} {fVerify : Bool}
    (h : Op.ofOpcode o = .checkSig fVerify) : o = OP_CHECKSIG ∨ o = OP_CHECKSIGVERIFY := by
  revert h
  refine opcode_cases (fun n hn => ?_) o
  exact (Op.ofOpcode_checkSig_table n hn fVerify).1

theorem Op.ofOpcode_eq_checkMultiSig {o : opcodetype} {fVerify : Bool}
    (h : Op.ofOpcode o = .checkMultiSig fVerify) :
    o = OP_CHECKMULTISIG ∨ o = OP_CHECKMULTISIGVERIFY := by
  revert h
  refine opcode_cases (fun n hn => ?_) o
  exact (Op.ofOpcode_checkSig_table n hn fVerify).2

/-- Between `OP_PUSHDATA4` and `OP_16` the opcodes push their number, but for
`OP_RESERVED`. -/
theorem Op.ofOpcode_of_le_OP_16 {o : opcodetype} (hlo : ¬o ≤ OP_PUSHDATA4) (hhi : o ≤ OP_16) :
    Op.ofOpcode o = if o = OP_RESERVED then .bad else .pushValue ((o.toNat : Int) - 0x50) := by
  have hlo' : 0x4f ≤ o.toNat := Nat.lt_of_not_le fun h => hlo (UInt8.le_iff_toNat_le.mpr h)
  refine opcode_range_cases 0x4f 18 ?_ o hlo' (Nat.lt_succ_of_le (UInt8.le_iff_toNat_le.mp hhi))
  decide

/-- `OP_1` … `OP_16` push the number their opcode decodes to. -/
theorem Op.ofOpcode_OP_N {o : opcodetype} (hlo : OP_1 ≤ o) (hhi : o ≤ OP_16) :
    Op.ofOpcode o = .pushValue (DecodeOP_N o) := by
  refine opcode_range_cases 0x51 16 ?_ o (UInt8.le_iff_toNat_le.mp hlo)
    (Nat.lt_succ_of_le (UInt8.le_iff_toNat_le.mp hhi))
  decide

/-- The number `OP_N` pushes reads back as itself. -/
theorem CScriptNum.ofVch_serialize_OP_N {o : opcodetype} (hlo : OP_1 ≤ o) (hhi : o ≤ OP_16)
    (fRequireMinimal : Bool) :
    CScriptNum.ofVch (CScriptNum.serialize (DecodeOP_N o)) fRequireMinimal 4 =
      some (DecodeOP_N o : Int) := by
  revert fRequireMinimal
  refine opcode_range_cases 0x51 16 ?_ o (UInt8.le_iff_toNat_le.mp hlo)
    (Nat.lt_succ_of_le (UInt8.le_iff_toNat_le.mp hhi))
  decide +kernel

theorem DecodeOP_N_le {o : opcodetype} (hhi : o ≤ OP_16) : DecodeOP_N o ≤ 16 := by
  have h16 : o.toNat ≤ 0x60 := UInt8.le_iff_toNat_le.mp hhi
  have h1 : OP_1.toNat = 0x51 := rfl
  unfold DecodeOP_N
  split_ifs <;> omega

theorem CScriptNum.getint_of_bounds {n : Int} (hlo : -2147483648 ≤ n) (hhi : n ≤ 2147483647) :
    CScriptNum.getint n = n := by
  unfold CScriptNum.getint
  omega

/-- The numbers from `-1` to `16` that the small push opcodes push have no signature
operation and are no witness program. -/
theorem serialize_small_inert {v : Int} (hlo : -1 ≤ v) (hhi : v ≤ 16) :
    GetSigOpCount (CScriptNum.serialize v) true = 0 ∧
      IsWitnessProgram (CScriptNum.serialize v) = none := by
  have table : ∀ n : Nat, n < 18 → GetSigOpCount (CScriptNum.serialize ((n : Int) - 1)) true = 0 ∧
      IsWitnessProgram (CScriptNum.serialize ((n : Int) - 1)) = none := by
    decide +kernel
  have hv : (((v + 1).toNat : Nat) : Int) - 1 = v := by omega
  rw [← hv]
  exact table (v + 1).toNat (by omega)

theorem sigOpsOf_of_checkSig {fAccurate : Bool} {lastOpcode opcode : opcodetype}
    (h : opcode = OP_CHECKSIG ∨ opcode = OP_CHECKSIGVERIFY) :
    sigOpsOf fAccurate lastOpcode opcode = 1 := by
  rw [sigOpsOf, if_pos h]

theorem sigOpsOf_of_checkMultiSig {fAccurate : Bool} {lastOpcode opcode : opcodetype}
    (h : opcode = OP_CHECKMULTISIG ∨ opcode = OP_CHECKMULTISIGVERIFY) :
    sigOpsOf fAccurate lastOpcode opcode =
      if fAccurate && OP_1 ≤ lastOpcode && lastOpcode ≤ OP_16 then DecodeOP_N lastOpcode
      else MAX_PUBKEYS_PER_MULTISIG := by
  have hsig : ¬(opcode = OP_CHECKSIG ∨ opcode = OP_CHECKSIGVERIFY) := by
    rcases h with rfl | rfl <;> decide
  rw [sigOpsOf, if_neg hsig, if_pos h]

/-- After an executed `OP_N` its number is on top of the stack: the key count that an
`OP_CHECKMULTISIG` right after it reads. -/
def LastOpPushed (lastOpcode : opcodetype) (st : ExecState) : Prop :=
  OP_1 ≤ lastOpcode → lastOpcode ≤ OP_16 → st.vfExec.all id = true →
    st.stack.head? = some (CScriptNum.serialize (DecodeOP_N lastOpcode))

/-- A signature opcode is no conditional, so it runs only in an executed branch. -/
theorem fExec_of_not_conditional {fExec : Bool} {opcode : opcodetype}
    (hrun : fExec ∨ (OP_IF ≤ opcode ∧ opcode ≤ OP_ENDIF)) (hcond : opcode.toNat > 0x68) :
    fExec = true := by
  rcases hrun with h | ⟨_, hhi⟩
  · exact h
  · simp only [OP_ENDIF, UInt8.le_iff_toNat_le, UInt8.toNat_ofNat] at hhi
    omega

/-! ## Push-only scripts

A push-only `scriptSig` leaves on top of the stack what its last instruction pushed:
the data that instruction reads, or the number of a small push opcode. The static
count of pay-to-script-hash reads the first. -/

/-- `top` is what the last push of a push-only script may leave, where `data` is what
that push reads. -/
def IsLastPush (data : List UInt8) (top : valtype) : Prop :=
  top = data ∨ ∃ v : Int, -1 ≤ v ∧ v ≤ 16 ∧ top = CScriptNum.serialize v

theorem IsLastPush.sigOps_le {data top : List UInt8} (h : IsLastPush data top) :
    GetSigOpCount top true ≤ GetSigOpCount data true := by
  rcases h with rfl | ⟨v, hlo, hhi, rfl⟩
  · exact Nat.le_refl _
  · rw [(serialize_small_inert hlo hhi).1]
    exact Nat.zero_le _

theorem IsLastPush.witnessProgram {data top : List UInt8} (h : IsLastPush data top)
    {w : Nat × List UInt8} (hw : IsWitnessProgram top = some w) : IsWitnessProgram data = some w := by
  rcases h with rfl | ⟨v, hlo, hhi, rfl⟩
  · exact hw
  · rw [(serialize_small_inert hlo hhi).2] at hw
    cases hw

/-- On a push-only script the scan of `GetSigOpCount(scriptSig)` and the scan of
`CountWitnessSigOps` find the same data. -/
theorem lastPushData_of_IsPushOnly (vData pc : List UInt8) (hpush : IsPushOnly pc = true) :
    lastPushData vData pc = some (lastData vData pc) := by
  induction vData, pc using lastData.induct with
  | case1 vData =>
    rw [lastPushData_nil, lastData_nil]
  | case2 vData pc hpc _ ih =>
    rcases hop : GetOp2 pc with ⟨fOk, opcode, data, pc'⟩
    rw [hop] at ih
    cases fOk with
    | false =>
      rw [IsPushOnly_of_GetOp2_false hpc (by rw [hop])] at hpush
      cases hpush
    | true =>
      rw [IsPushOnly_of_GetOp2 hop, Bool.and_eq_true, decide_eq_true_eq] at hpush
      rw [lastPushData_of_GetOp2 hop, if_neg (UInt8.not_lt.mpr hpush.1), lastData_of_GetOp2 hpc hop]
      exact ih hpush.2

theorem GetSigOpCountP2SH_of_IsPushOnly {scriptPubKey scriptSig : CScript}
    (hp2sh : IsPayToScriptHash scriptPubKey = true) (hpush : IsPushOnly scriptSig = true) :
    GetSigOpCountP2SH scriptPubKey scriptSig = GetSigOpCount (lastData [] scriptSig) true := by
  rw [GetSigOpCountP2SH, hp2sh, Bool.not_true, if_neg Bool.false_ne_true,
    lastPushData_of_IsPushOnly [] scriptSig hpush]

section PushOnly

variable {σ : Type} {c : σ → Nat} (flags : UInt32) (checker : BaseSignatureChecker σ)
  (crypto : ScriptCrypto) (sigversion : SigVersion)

/-- A push instruction in an executed branch pushes what it reads or a small number,
and calls nothing. -/
theorem EvalStep_pushOnly (opcode : opcodetype) (vchPushValue : valtype) (pc : List UInt8)
    (st : ExecState) (hop : opcode ≤ OP_16) (hexec : st.vfExec = []) :
    CostAtMost c 0
      (fun st' => st'.vfExec = [] ∧ ∃ top, st'.stack = top :: st.stack ∧ IsLastPush vchPushValue top)
      (EvalStep flags checker crypto sigversion opcode vchPushValue pc st) := by
  unfold EvalStep
  refine CostAtMost.bind_free (CostAtMost.failIf _) fun _ _ => ?_
  refine CostAtMost.bind_free (CostAtMost.failIf _) fun _ _ => ?_
  refine CostAtMost.bind_free (CostAtMost.failIf _) fun _ _ => ?_
  refine CostAtMost.bind_free (?_ : CostAtMost c 0
    (fun st' => st'.vfExec = [] ∧ ∃ top, st'.stack = top :: st.stack ∧ IsLastPush vchPushValue top) _)
    fun st' hst' => CostAtMost.bind_free (CostAtMost.failIf _) fun _ _ => CostAtMost.pure hst'
  have hfExec : st.vfExec.all id = true := by
    rw [hexec]
    rfl
  by_cases hpush : opcode ≤ OP_PUSHDATA4
  · -- a data push
    rw [if_pos ⟨hfExec, hpush⟩]
    exact CostAtMost.bind_free (CostAtMost.failIf _) fun _ _ =>
      CostAtMost.pure ⟨hexec, vchPushValue, rfl, Or.inl rfl⟩
  · -- `OP_1NEGATE`, `OP_RESERVED` or `OP_N`
    rw [if_neg fun h => hpush h.2, if_pos (Or.inl hfExec), hfExec,
      Op.ofOpcode_of_le_OP_16 hpush hop]
    have hlo := hpush
    have hhi := hop
    simp only [OP_PUSHDATA4, OP_16, UInt8.le_iff_toNat_le, UInt8.toNat_ofNat] at hlo hhi
    by_cases hreserved : opcode = OP_RESERVED
    · rw [if_pos hreserved]
      exact CostAtMost.throw _
    · rw [if_neg hreserved]
      exact CostAtMost.pure ⟨hexec, _, rfl, Or.inr ⟨_, by omega, by omega, rfl⟩⟩

/-- A push-only script run from an executed branch leaves its last push on top, and
calls nothing. -/
theorem EvalLoop_pushOnly (pc : List UInt8) (st : ExecState) (hpush : IsPushOnly pc = true)
    (hexec : st.vfExec = []) (vData : List UInt8)
    (htop : ∀ top, st.stack.head? = some top → IsLastPush vData top) :
    CostAtMost c 0 (fun st' => ∀ top, st'.stack.head? = some top → IsLastPush (lastData vData pc) top)
      (EvalLoop flags checker crypto sigversion pc st) := by
  induction pc, st using EvalLoop.induct generalizing vData with
  | case1 st =>
    rw [EvalLoop_nil, lastData_nil]
    exact CostAtMost.pure htop
  | case2 pc st hpc _ _ _ hop =>
    have hfail : (GetOp2 pc).1 = false := by rw [hop]
    rw [EvalLoop_of_GetOp2_false _ _ _ _ hpc hfail]
    exact CostAtMost.throw _
  | case3 pc st hpc opcode vchPushValue pc' hop _ ih =>
    rw [IsPushOnly_of_GetOp2 hop, Bool.and_eq_true, decide_eq_true_eq] at hpush
    rw [EvalLoop_of_GetOp2 _ _ _ _ hop, lastData_of_GetOp2 hpc hop]
    refine CostAtMost.bind_free
      (EvalStep_pushOnly flags checker crypto sigversion opcode vchPushValue pc' st hpush.1 hexec)
      fun st' hst' => ?_
    obtain ⟨hexec', top, hstack, hlast⟩ := hst'
    refine ih st' hpush.2 hexec' vchPushValue fun top' htop' => ?_
    rw [hstack, List.head?_cons, Option.some.injEq] at htop'
    rw [← htop']
    exact hlast

theorem EvalScript_pushOnly (script : CScript) (hpush : IsPushOnly script = true) :
    CostAtMost c 0 (fun stack => ∀ top, stack.head? = some top → IsLastPush (lastData [] script) top)
      (EvalScript flags checker crypto sigversion [] script) := by
  unfold EvalScript
  refine CostAtMost.bind_free (CostAtMost.failIf _) fun _ _ => ?_
  refine CostAtMost.bind_free (EvalLoop_pushOnly flags checker crypto sigversion script _ hpush rfl []
    fun _ h => by cases h) fun st hst => ?_
  exact CostAtMost.bind_free (CostAtMost.failIf _) fun _ _ => CostAtMost.pure hst

end PushOnly

/-- The key-hash witness script has one signature operation. -/
theorem GetSigOpCount_P2WPKH {program : List UInt8} (hlen : program.length = 20) :
    GetSigOpCount ([OP_DUP, OP_HASH160] ++ pushData program ++ [OP_EQUALVERIFY, OP_CHECKSIG]) true =
      1 := by
  have hpush : pushData program = 0x14 :: program := by
    rw [pushData, hlen, if_pos (by decide)]
    rfl
  have h3 : GetOp2 (0x14 :: (program ++ [OP_EQUALVERIFY, OP_CHECKSIG])) =
      (true, 0x14, program, [OP_EQUALVERIFY, OP_CHECKSIG]) := by
    have hsize : pushSize 0x14 (program ++ [OP_EQUALVERIFY, OP_CHECKSIG]) =
        some (20, program ++ [OP_EQUALVERIFY, OP_CHECKSIG]) := by
      rw [pushSize, if_pos (by decide)]
      rfl
    rw [GetOp2, if_pos (by decide), hsize]
    simp only [List.length_append, hlen, List.take_left' hlen, List.drop_left' hlen]
    rfl
  have hscript : [OP_DUP, OP_HASH160] ++ pushData program ++ [OP_EQUALVERIFY, OP_CHECKSIG] =
      OP_DUP :: OP_HASH160 :: 0x14 :: (program ++ [OP_EQUALVERIFY, OP_CHECKSIG]) := by
    rw [hpush]
    simp only [List.cons_append, List.nil_append]
  -- instruction by instruction: only the final `OP_CHECKSIG` counts
  rw [hscript, GetSigOpCount, sigOpCountLoop_of_GetOp2 (rfl : GetOp2 _ = (true, OP_DUP, [], _)),
    sigOpCountLoop_of_GetOp2 (rfl : GetOp2 _ = (true, OP_HASH160, [], _)),
    sigOpCountLoop_of_GetOp2 h3, sigOpCountLoop_of_GetOp2 (rfl : GetOp2 _ = (true, OP_EQUALVERIFY, [], _)),
    sigOpCountLoop_of_GetOp2 (rfl : GetOp2 _ = (true, OP_CHECKSIG, [], _)), sigOpCountLoop_nil]
  rfl

/-- A witness program's script has at most the signature operations its charge counts. -/
theorem witnessProgramScript_sigOps {σ : Type} {c : σ → Nat} (flags : UInt32) (crypto : ScriptCrypto)
    (witness : CScriptWitness) (witversion : Nat) (program : List UInt8) :
    CostAtMost c 0
      (fun r => ∀ script stack, r = some (script, stack) →
        GetSigOpCount script true ≤ WitnessSigOps witversion program witness)
      (witnessProgramScript flags crypto witness witversion program : ScriptM σ _) := by
  -- a script-hash program runs the last witness item, which is what its charge counts
  have hscriptHash : ∀ subscript, (witversion = 0 ∨ witversion = 1) → program.length = 32 →
      witness.stack.getLast? = some subscript →
      GetSigOpCount subscript true ≤ WitnessSigOps witversion program witness :=
    fun _ hv h32 hsub => Nat.le_of_eq (WitnessSigOps_of_getLast hv h32 hsub).symm
  unfold witnessProgramScript
  by_cases h0 : witversion = 0
  · rw [if_pos h0]
    by_cases h32 : program.length = 32
    · rw [if_pos h32]
      split
      next => exact CostAtMost.throw _
      next subscript hsub =>
        refine CostAtMost.ite (fun _ => CostAtMost.throw _) fun _ => CostAtMost.pure ?_
        rintro script stack ⟨⟩
        exact hscriptHash _ (Or.inl h0) h32 hsub
    · rw [if_neg h32]
      refine CostAtMost.ite (fun h20 => ?_) fun _ => CostAtMost.throw _
      refine CostAtMost.ite (fun _ => CostAtMost.throw _) fun _ => CostAtMost.pure ?_
      -- a key-hash program runs the fixed script with one `OP_CHECKSIG`
      rintro script stack ⟨⟩
      exact Nat.le_of_eq
        (by rw [GetSigOpCount_P2WPKH h20, WitnessSigOps_of_length_20 witness (Or.inl h0) h20])
  · rw [if_neg h0]
    by_cases h1 : witversion = 1
    · rw [if_pos h1]
      refine CostAtMost.ite (fun h32 => ?_) fun _ => CostAtMost.throw _
      split
      next => exact CostAtMost.throw _
      next subscript hsub =>
        refine CostAtMost.ite (fun _ => CostAtMost.throw _) fun _ => CostAtMost.pure ?_
        rintro script stack ⟨⟩
        exact hscriptHash _ (Or.inr h1) h32 hsub
    · rw [if_neg h1]
      refine CostAtMost.ite (fun _ => CostAtMost.throw _) fun _ => CostAtMost.pure ?_
      rintro script stack ⟨⟩

/-! ## Costs of the interpreter

The counter is `c`; the checker raises it only in `CheckSig`. -/

section Cost

variable {σ : Type} {c : σ → Nat} (flags : UInt32) {checker : BaseSignatureChecker σ}
  (crypto : ScriptCrypto) (sigversion : SigVersion)

theorem liftExcept_cost {α : Type} (e : Except ScriptError α) :
    CostAtMost c 0 (fun x => e = .ok x) (liftExcept e : ScriptM σ α) := by
  cases e with
  | error err => exact CostAtMost.throw err
  | ok x => exact CostAtMost.pure rfl

theorem scriptNum_cost (vch : valtype) (nMaxNumSize : Nat) :
    CostAtMost c 0
      (fun n => CScriptNum.ofVch vch (hasFlag flags SCRIPT_VERIFY_MINIMALDATA) nMaxNumSize = some n)
      (scriptNum flags vch nMaxNumSize : ScriptM σ Int) := by
  unfold scriptNum
  split
  next n hn => exact CostAtMost.pure hn
  next => exact CostAtMost.throw _

theorem requireTrue_cost (stack : List valtype) :
    CostAtMost c 0 (fun _ => True) (requireTrue stack : ScriptM σ Unit) := by
  unfold requireTrue
  split
  next => exact CostAtMost.ite (fun _ => CostAtMost.pure trivial) fun _ => CostAtMost.throw _
  next => exact CostAtMost.throw _

variable (hc : SigCounter c checker)
include hc

/-- The signature loop of `OP_CHECKMULTISIG` calls the checker at most once a key. -/
theorem checkMultiSigLoop_cost (scriptCode : CScript) (sigs keys : List valtype) :
    CostAtMost c keys.length (fun _ => True)
      (checkMultiSigLoop flags checker crypto sigversion scriptCode sigs keys) := by
  induction keys generalizing sigs with
  | nil =>
    cases sigs <;> exact CostAtMost.pure trivial
  | cons vchPubKey keys ih =>
    cases sigs with
    | nil => exact CostAtMost.pure trivial
    | cons vchSig sigs =>
      rw [checkMultiSigLoop]
      refine CostAtMost.bind_free (liftExcept_cost _) fun _ _ => ?_
      refine CostAtMost.bind_free (liftExcept_cost _) fun _ _ => ?_
      -- one call for this key, then the loop over the keys after it
      refine (CostAtMost.bind (CostAtMost.liftM _ (hc.CheckSig_le _ _ _ _)) fun fOk _ =>
        CostAtMost.ite (fun _ => CostAtMost.pure trivial) fun _ => ih _).mono (by simp only [List.length_cons]; omega) fun _ h => h

/-- `OP_CHECKSIG` calls the checker once. -/
theorem execCheckSig_cost (fVerify : Bool) (st : ExecState) :
    CostAtMost c 1 (fun _ => True) (execCheckSig flags checker crypto sigversion fVerify st) := by
  unfold execCheckSig
  split
  next =>
    refine CostAtMost.bind_free (liftExcept_cost _) fun _ _ => ?_
    refine CostAtMost.bind_free (liftExcept_cost _) fun _ _ => ?_
    refine CostAtMost.bind (CostAtMost.liftM _ (hc.CheckSig_le _ _ _ _)) fun fSuccess _ =>
      (?_ : CostAtMost c 0 _ _)
    refine CostAtMost.bind_free (CostAtMost.failIf _) fun _ _ => ?_
    split_ifs <;> first | exact CostAtMost.pure trivial | exact CostAtMost.throw _
  next => exact CostAtMost.throw _

/-- `OP_CHECKMULTISIG` calls the checker at most as often as the key count on top of
the stack says, and that count is at most `k` wherever it is in range. -/
theorem execCheckMultiSig_cost (fVerify : Bool) (st : ExecState) {k : Nat}
    (hk : ∀ top n, st.stack.head? = some top →
      CScriptNum.ofVch top (hasFlag flags SCRIPT_VERIFY_MINIMALDATA) 4 = some n →
      0 ≤ CScriptNum.getint n → CScriptNum.getint n ≤ MAX_PUBKEYS_PER_MULTISIG →
      (CScriptNum.getint n).toNat ≤ k) :
    CostAtMost c k (fun _ => True)
      (execCheckMultiSig flags checker crypto sigversion fVerify st) := by
  unfold execCheckMultiSig
  split
  next top htop =>
    refine CostAtMost.bind_free (scriptNum_cost flags top 4) fun n hn => ?_
    refine CostAtMost.bind_free (CostAtMost.failIf _) fun _ hrange => ?_
    have hkeys : (CScriptNum.getint n).toNat ≤ k := hk top n htop hn (by omega) (by omega)
    refine CostAtMost.bind_free (CostAtMost.failIf _) fun _ _ => ?_
    split
    next vchSigsCount _ =>
      refine CostAtMost.bind_free (scriptNum_cost flags vchSigsCount 4) fun _ _ => ?_
      refine CostAtMost.bind_free (CostAtMost.failIf _) fun _ _ => ?_
      refine CostAtMost.bind_free (CostAtMost.failIf _) fun _ _ => ?_
      -- the loop is the only call; what follows only checks and pushes
      dsimp only
      refine (CostAtMost.bind (checkMultiSigLoop_cost flags crypto sigversion hc _ _ _)
        fun fSuccess _ => (?_ : CostAtMost c 0 _ _)).mono ?_ fun _ h => h
      · refine CostAtMost.bind_free (CostAtMost.failIf _) fun _ _ => ?_
        split
        next =>
          refine CostAtMost.bind_free (CostAtMost.failIf _) fun _ _ => ?_
          split_ifs <;> first | exact CostAtMost.pure trivial | exact CostAtMost.throw _
        next => exact CostAtMost.throw _
      · rw [List.length_take, Nat.add_zero]
        omega
    next => exact CostAtMost.throw _
  next => exact CostAtMost.throw _

/-- Every instruction but the two signature checks leaves the counter alone. -/
theorem ExecOp_cost_of_ne (fExec : Bool) (op : Op) (pc : List UInt8) (st : ExecState)
    (hsig : ∀ fVerify, op ≠ .checkSig fVerify) (hmulti : ∀ fVerify, op ≠ .checkMultiSig fVerify) :
    CostAtMost c 0 (fun _ => True) (ExecOp flags checker crypto sigversion fExec op pc st) := by
  cases op with
  | checkSig fVerify => exact absurd rfl (hsig fVerify)
  | checkMultiSig fVerify => exact absurd rfl (hmulti fVerify)
  | checkLockTimeVerify =>
    simp only [ExecOp]
    refine CostAtMost.ite (fun _ => CostAtMost.pure trivial) fun _ => ?_
    split
    next top _ =>
      refine CostAtMost.bind_free (scriptNum_cost flags top 5) fun _ _ => ?_
      refine CostAtMost.bind_free (CostAtMost.failIf _) fun _ _ => ?_
      refine CostAtMost.bind_free (CostAtMost.liftM _ (hc.CheckLockTime_le _)) fun _ _ => ?_
      exact CostAtMost.bind_free (CostAtMost.failIf _) fun _ _ => CostAtMost.pure trivial
    next => exact CostAtMost.throw _
  | checkSequenceVerify =>
    simp only [ExecOp]
    refine CostAtMost.ite (fun _ => CostAtMost.pure trivial) fun _ => ?_
    split
    next top _ =>
      refine CostAtMost.bind_free (scriptNum_cost flags top 5) fun _ _ => ?_
      refine CostAtMost.bind_free (CostAtMost.failIf _) fun _ _ => ?_
      refine CostAtMost.ite (fun _ => CostAtMost.pure trivial) fun _ => ?_
      refine CostAtMost.bind_free (CostAtMost.liftM _ (hc.CheckSequence_le _)) fun _ _ => ?_
      exact CostAtMost.bind_free (CostAtMost.failIf _) fun _ _ => CostAtMost.pure trivial
    next => exact CostAtMost.throw _
  | _ =>
    -- the other cases pop, push and check without the checker: each branch is a
    -- number read, a guard, a push or a failure
    simp only [ExecOp]
    repeat' first
      | exact CostAtMost.pure trivial
      | exact CostAtMost.throw _
      | refine CostAtMost.bind_free (scriptNum_cost flags _ _) fun _ _ => ?_
      | refine CostAtMost.bind_free (CostAtMost.failIf _) fun _ _ => ?_
      | split

/-- The key count of an `OP_CHECKMULTISIG` run right after an `OP_N` is that `N`. -/
theorem execCheckMultiSig_cost_sigOps {lastOpcode opcode : opcodetype} (fVerify : Bool)
    (st : ExecState) (hlast : LastOpPushed lastOpcode st) (hexec : st.vfExec.all id = true)
    (hop : opcode = OP_CHECKMULTISIG ∨ opcode = OP_CHECKMULTISIGVERIFY) :
    CostAtMost c (sigOpsOf true lastOpcode opcode) (fun _ => True)
      (execCheckMultiSig flags checker crypto sigversion fVerify st) := by
  refine execCheckMultiSig_cost flags crypto sigversion hc fVerify st ?_
  intro top n htop hn h0 h20
  rw [sigOpsOf_of_checkMultiSig hop, Bool.true_and]
  by_cases hN : OP_1 ≤ lastOpcode ∧ lastOpcode ≤ OP_16
  · -- the top is the number `OP_N` pushed, so the count is `N`
    have hpushed := hlast hN.1 hN.2 hexec
    rw [htop, Option.some.injEq] at hpushed
    rw [hpushed, CScriptNum.ofVch_serialize_OP_N hN.1 hN.2, Option.some.injEq] at hn
    have h16 := DecodeOP_N_le hN.2
    rw [if_pos (by simp only [hN, decide_true, Bool.and_self]), ← hn,
      CScriptNum.getint_of_bounds (by omega) (by omega)]
    omega
  · have hN' : (decide (OP_1 ≤ lastOpcode) && decide (lastOpcode ≤ OP_16)) = false := by
      simpa only [Bool.and_eq_false_iff, decide_eq_false_iff_not, not_and_or] using hN
    rw [hN', if_neg Bool.false_ne_true]
    unfold MAX_PUBKEYS_PER_MULTISIG at h20 ⊢
    omega

/-- An instruction that runs costs at most what the accurate count charges for it. -/
theorem ExecOp_cost {lastOpcode : opcodetype} (opcode : opcodetype) (pc : List UInt8)
    (st : ExecState) (hlast : LastOpPushed lastOpcode st)
    (hrun : st.vfExec.all id ∨ (OP_IF ≤ opcode ∧ opcode ≤ OP_ENDIF)) :
    CostAtMost c (sigOpsOf true lastOpcode opcode) (fun _ => True)
      (ExecOp flags checker crypto sigversion (st.vfExec.all id) (Op.ofOpcode opcode) pc st) := by
  by_cases hs : ∃ fVerify, Op.ofOpcode opcode = .checkSig fVerify
  · obtain ⟨fVerify, hs⟩ := hs
    rw [hs, sigOpsOf_of_checkSig (Op.ofOpcode_eq_checkSig hs)]
    exact execCheckSig_cost flags crypto sigversion hc fVerify st
  by_cases hm : ∃ fVerify, Op.ofOpcode opcode = .checkMultiSig fVerify
  · obtain ⟨fVerify, hm⟩ := hm
    have hop := Op.ofOpcode_eq_checkMultiSig hm
    have hexec : st.vfExec.all id = true := by
      refine fExec_of_not_conditional hrun ?_
      rcases hop with rfl | rfl <;> decide
    rw [hm]
    exact execCheckMultiSig_cost_sigOps flags crypto sigversion hc fVerify st hlast hexec hop
  exact (ExecOp_cost_of_ne flags crypto sigversion hc _ _ pc st (fun fv h => hs ⟨fv, h⟩)
    (fun fv h => hm ⟨fv, h⟩)).mono (Nat.zero_le _) fun _ h => h

/-- One turn of the loop costs what the accurate count charges for its opcode after
the one before it, and keeps the number an `OP_N` pushed on top. -/
theorem EvalStep_cost {lastOpcode : opcodetype} (opcode : opcodetype) (vchPushValue : valtype)
    (pc : List UInt8) (st : ExecState) (hlast : LastOpPushed lastOpcode st) :
    CostAtMost c (sigOpsOf true lastOpcode opcode) (LastOpPushed opcode)
      (EvalStep flags checker crypto sigversion opcode vchPushValue pc st) := by
  unfold EvalStep
  refine CostAtMost.bind_free (CostAtMost.failIf _) fun _ _ => ?_
  refine CostAtMost.bind_free (CostAtMost.failIf _) fun _ _ => ?_
  refine CostAtMost.bind_free (CostAtMost.failIf _) fun _ _ => ?_
  -- the stack-size guard after the instruction costs nothing
  refine (CostAtMost.bind (?_ : CostAtMost c (sigOpsOf true lastOpcode opcode) (LastOpPushed opcode) _)
    fun st' hst' => (CostAtMost.bind_free (CostAtMost.failIf _) fun _ _ =>
      CostAtMost.pure hst' : CostAtMost c 0 _ _)).mono (Nat.le_of_eq (Nat.add_zero _)) fun _ h => h
  by_cases hN : OP_1 ≤ opcode ∧ opcode ≤ OP_16
  · -- `OP_N` pushes its number where it runs, and is no data push
    have hsig : sigOpsOf true lastOpcode opcode = 0 := by
      unfold sigOpsOf
      rw [if_neg fun h => by rcases h with rfl | rfl <;> exact absurd hN.2 (by decide),
        if_neg fun h => by rcases h with rfl | rfl <;> exact absurd hN.2 (by decide)]
    rw [hsig]
    refine CostAtMost.ite (fun hpush => absurd hpush.2 ?_) fun _ =>
      CostAtMost.ite (fun _ => ?_) fun hskip => CostAtMost.pure fun _ _ hexec => ?_
    · have h1 := hN.1
      simp only [OP_1, OP_PUSHDATA4, UInt8.le_iff_toNat_le, UInt8.toNat_ofNat] at h1 ⊢
      omega
    · rw [Op.ofOpcode_OP_N hN.1 hN.2]
      exact CostAtMost.pure fun _ _ _ => rfl
    · exact absurd (Or.inl hexec) hskip
  · -- elsewhere there is no number to keep
    refine CostAtMost.mono (Nat.le_refl _) (fun _ _ h1 h2 => absurd ⟨h1, h2⟩ hN)
      (?_ : CostAtMost c _ (fun _ => True) _)
    refine CostAtMost.ite (fun _ => CostAtMost.bind_free (CostAtMost.failIf _) fun _ _ =>
      CostAtMost.pure trivial) fun _ => CostAtMost.ite (fun hrun => ?_) fun _ => CostAtMost.pure trivial
    exact ExecOp_cost flags crypto sigversion hc opcode pc _ hlast hrun

/-- The instruction loop costs at most the accurate count of the rest of the script. -/
theorem EvalLoop_cost (pc : List UInt8) (st : ExecState) {lastOpcode : opcodetype}
    (hlast : LastOpPushed lastOpcode st) :
    CostAtMost c (sigOpCountLoop true lastOpcode pc) (fun _ => True)
      (EvalLoop flags checker crypto sigversion pc st) := by
  induction pc, st using EvalLoop.induct generalizing lastOpcode with
  | case1 st =>
    rw [EvalLoop_nil]
    exact CostAtMost.pure trivial
  | case2 pc st hpc _ _ _ hop =>
    have hfail : (GetOp2 pc).1 = false := by rw [hop]
    rw [EvalLoop_of_GetOp2_false _ _ _ _ hpc hfail]
    exact CostAtMost.throw _
  | case3 pc st hpc opcode vchPushValue pc' hop _ ih =>
    rw [EvalLoop_of_GetOp2 _ _ _ _ hop, sigOpCountLoop_of_GetOp2 hop]
    exact CostAtMost.bind (EvalStep_cost flags crypto sigversion hc opcode vchPushValue pc' st hlast)
      fun st' hst' => ih st' hst'

/-- A script costs at most its accurate count. -/
theorem EvalScript_cost (stack : List valtype) (script : CScript) :
    CostAtMost c (GetSigOpCount script true) (fun _ => True)
      (EvalScript flags checker crypto sigversion stack script) := by
  unfold EvalScript
  refine CostAtMost.bind_free (CostAtMost.failIf _) fun _ _ => ?_
  -- no `OP_N` came before the first instruction
  have hstart : LastOpPushed OP_INVALIDOPCODE ⟨stack, [], [], 0, script⟩ := by
    intro _ hhi
    exact absurd hhi (by decide)
  refine (CostAtMost.bind (EvalLoop_cost flags crypto sigversion hc script _ hstart) fun st _ =>
    (CostAtMost.bind_free (CostAtMost.failIf _) fun _ _ => CostAtMost.pure trivial :
      CostAtMost c 0 _ _)).mono (Nat.le_of_eq (Nat.add_zero _)) fun _ h => h

/-- A witness program costs at most what `WitnessSigOps` charges for it. -/
theorem VerifyWitnessProgram_cost (witness : CScriptWitness) (witversion : Nat)
    (program : List UInt8) :
    CostAtMost c (WitnessSigOps witversion program witness) (fun _ => True)
      (VerifyWitnessProgram flags checker crypto witness witversion program) := by
  unfold VerifyWitnessProgram
  refine (CostAtMost.bind (witnessProgramScript_sigOps flags crypto witness witversion program)
    fun r hr => ?_).mono (Nat.le_of_eq (Nat.zero_add _)) fun _ h => h
  split
  next script stack =>
    refine CostAtMost.bind_free (CostAtMost.failIf _) fun _ _ => ?_
    refine (CostAtMost.bind (EvalScript_cost flags crypto _ hc stack script) fun _ _ =>
      (?_ : CostAtMost c 0 (fun _ => True) _)).mono
        (Nat.le_trans (Nat.le_of_eq (Nat.add_zero _)) (hr script stack rfl)) fun _ h => h
    split
    next => exact CostAtMost.ite (fun _ => CostAtMost.pure trivial) fun _ => CostAtMost.throw _
    next => exact CostAtMost.throw _
  next => exact CostAtMost.pure trivial

/-- The pay-to-script-hash stage costs at most `k₁` for the redeem script on top of the
stack the `scriptSig` left and `k₂` for a witness program it may be. -/
theorem verifyP2SH_cost (scriptSig : CScript) (witness : CScriptWitness)
    (stackCopy : List valtype) {k₁ k₂ : Nat}
    (hk : IsPushOnly scriptSig = true → ∀ redeem rest, stackCopy = redeem :: rest →
      GetSigOpCount redeem true ≤ k₁ ∧
        (hasFlag flags SCRIPT_VERIFY_WITNESS = true → ∀ witversion witprogram,
          IsWitnessProgram redeem = some (witversion, witprogram) →
          WitnessSigOps witversion witprogram witness ≤ k₂)) :
    CostAtMost c (k₁ + k₂) (fun _ => True)
      (verifyP2SH flags checker crypto scriptSig witness stackCopy) := by
  unfold verifyP2SH
  refine CostAtMost.bind_free (CostAtMost.failIf _) fun _ hpush => ?_
  have hpush' : IsPushOnly scriptSig = true := by simpa using hpush
  split
  next redeem rest =>
    obtain ⟨hsig, hwit⟩ := hk hpush' redeem rest rfl
    refine CostAtMost.bind ((EvalScript_cost flags crypto _ hc rest redeem).mono hsig fun _ h => h)
      fun stack _ => ?_
    refine CostAtMost.bind_free (requireTrue_cost stack) fun _ _ => ?_
    refine CostAtMost.ite (fun hW => ?_) fun _ => CostAtMost.pure trivial
    split
    next witversion witprogram hwp =>
      refine CostAtMost.bind_free (CostAtMost.failIf _) fun _ _ => ?_
      refine (CostAtMost.bind ((VerifyWitnessProgram_cost flags crypto hc witness witversion
        witprogram).mono (hwit hW witversion witprogram hwp) fun _ h => h) fun _ _ =>
          CostAtMost.pure trivial).mono (Nat.le_of_eq (Nat.add_zero _)) fun _ h => h
    next => exact CostAtMost.pure trivial
  next => exact CostAtMost.throw _

/-- `VerifyScript` costs at most the charge `GetTransactionSigOpCost` makes for the
input: the plain counts of both scripts, the accurate count of the redeem script, and
the witness charge. -/
theorem VerifyScript_cost (scriptSig scriptPubKey : CScript) (witness : CScriptWitness) :
    CostAtMost c (GetSigOpCount scriptSig false + GetSigOpCount scriptPubKey false +
        (if hasFlag flags SCRIPT_VERIFY_P2SH && IsPayToScriptHash scriptPubKey then
          GetSigOpCountP2SH scriptPubKey scriptSig else 0) +
        CountWitnessSigOps scriptSig scriptPubKey witness flags) (fun _ => True)
      (VerifyScript flags checker crypto scriptSig scriptPubKey witness) := by
  unfold VerifyScript
  refine CostAtMost.bind_free (CostAtMost.failIf _) fun _ _ => ?_
  -- a push-only `scriptSig` leaves the redeem script the static count reads
  have hsig : CostAtMost c (GetSigOpCount scriptSig true)
      (fun stack => IsPushOnly scriptSig = true →
        ∀ top, stack.head? = some top → IsLastPush (lastData [] scriptSig) top)
      (EvalScript flags checker crypto .SIGVERSION_BASE [] scriptSig) := by
    by_cases hpush : IsPushOnly scriptSig = true
    · exact (EvalScript_pushOnly flags checker crypto _ scriptSig hpush).mono (Nat.zero_le _)
        fun _ h _ => h
    · exact (EvalScript_cost flags crypto _ hc [] scriptSig).mono (Nat.le_refl _)
        fun _ _ h => absurd h hpush
  refine (CostAtMost.bind hsig fun stackCopy hcopy => (?_ : CostAtMost c
    (GetSigOpCount scriptPubKey true +
      ((if (hasFlag flags SCRIPT_VERIFY_P2SH && IsPayToScriptHash scriptPubKey) = true then 0
        else CountWitnessSigOps scriptSig scriptPubKey witness flags) +
      ((if (hasFlag flags SCRIPT_VERIFY_P2SH && IsPayToScriptHash scriptPubKey) = true then
        GetSigOpCountP2SH scriptPubKey scriptSig + CountWitnessSigOps scriptSig scriptPubKey witness flags
        else 0) + 0))) (fun _ => True) _)).mono ?_ fun _ h => h
  · refine CostAtMost.bind (EvalScript_cost flags crypto _ hc stackCopy scriptPubKey) fun stack _ => ?_
    refine CostAtMost.bind_free (requireTrue_cost stack) fun _ _ => ?_
    -- the bare witness program; a pay-to-script-hash script is none
    refine CostAtMost.bind (?_ : CostAtMost c
      (if (hasFlag flags SCRIPT_VERIFY_P2SH && IsPayToScriptHash scriptPubKey) = true then 0
        else CountWitnessSigOps scriptSig scriptPubKey witness flags) (fun _ => True) _)
      fun ⟨stack', hadWitness⟩ _ => ?_
    · refine CostAtMost.ite (fun hW => ?_) fun _ => CostAtMost.pure trivial
      rcases hwp : IsWitnessProgram scriptPubKey with _ | ⟨witversion, witprogram⟩
      · exact CostAtMost.pure trivial
      · have hp2sh : ¬(hasFlag flags SCRIPT_VERIFY_P2SH && IsPayToScriptHash scriptPubKey) = true := by
          intro h
          rw [IsWitnessProgram_of_IsPayToScriptHash ((Bool.and_eq_true _ _).mp h).2] at hwp
          cases hwp
        rw [if_neg hp2sh, CountWitnessSigOps_of_IsWitnessProgram hW hwp]
        refine CostAtMost.bind_free (CostAtMost.failIf _) fun _ _ => ?_
        exact (CostAtMost.bind (VerifyWitnessProgram_cost flags crypto hc witness witversion
          witprogram) fun _ _ => CostAtMost.pure trivial).mono (Nat.le_of_eq (Nat.add_zero _))
            fun _ h => h
    -- the redeem script, charged through the last push of the `scriptSig`
    refine CostAtMost.bind (?_ : CostAtMost c
      (if (hasFlag flags SCRIPT_VERIFY_P2SH && IsPayToScriptHash scriptPubKey) = true then
        GetSigOpCountP2SH scriptPubKey scriptSig + CountWitnessSigOps scriptSig scriptPubKey witness flags
        else 0) (fun _ => True) _) fun ⟨_, _⟩ _ => ?_
    · refine CostAtMost.ite (fun hp2sh => ?_) fun _ => CostAtMost.pure trivial
      have hp2sh' : IsPayToScriptHash scriptPubKey = true := ((Bool.and_eq_true _ _).mp hp2sh).2
      rw [if_pos hp2sh]
      refine (CostAtMost.bind (verifyP2SH_cost flags crypto hc scriptSig witness stackCopy ?_)
        fun r _ => (?_ : CostAtMost c 0 (fun _ => True) _)).mono (Nat.le_of_eq (Nat.add_zero _))
          fun _ h => h
      swap
      · obtain ⟨_, _⟩ := r
        exact CostAtMost.pure trivial
      intro hpush redeem rest hstack
      have hlast : IsLastPush (lastData [] scriptSig) redeem := hcopy hpush redeem (by rw [hstack]; rfl)
      refine ⟨?_, fun hW witversion witprogram hwp => ?_⟩
      · rw [GetSigOpCountP2SH_of_IsPushOnly hp2sh' hpush]
        exact hlast.sigOps_le
      · exact Nat.le_of_eq (CountWitnessSigOps_of_IsPayToScriptHash hW hp2sh' hpush
          (hlast.witnessProgram hwp)).symm
    -- the clean-stack and unexpected-witness rules
    exact CostAtMost.bind_free (CostAtMost.failIf _) fun _ _ =>
      (CostAtMost.failIf _).mono (Nat.le_refl _) fun _ _ => trivial
  · -- the accurate counts are at most the plain ones
    have hsig : GetSigOpCount scriptSig true ≤ GetSigOpCount scriptSig false :=
      sigOpCountLoop_accurate_le _ _
    have hpub : GetSigOpCount scriptPubKey true ≤ GetSigOpCount scriptPubKey false :=
      sigOpCountLoop_accurate_le _ _
    split_ifs <;> omega

end Cost

/-- Verifying an input calls `CheckSig` at most as often as `GetTransactionSigOpCost`
charges for the input, from any state of the checker and whether verification passes
or fails. -/
theorem VerifyScript_CheckSig_calls_le {σ : Type} (flags : UInt32) (checker : BaseSignatureChecker σ)
    (crypto : ScriptCrypto) (scriptSig scriptPubKey : CScript) (witness : CScriptWitness)
    (s : σ) (n : Nat) :
    ((VerifyScript flags checker.counting crypto scriptSig scriptPubKey witness).run.run (s, n)).2.2 ≤
      n + (GetSigOpCount scriptSig false + GetSigOpCount scriptPubKey false +
        (if hasFlag flags SCRIPT_VERIFY_P2SH && IsPayToScriptHash scriptPubKey then
          GetSigOpCountP2SH scriptPubKey scriptSig else 0) +
        CountWitnessSigOps scriptSig scriptPubKey witness flags) :=
  (VerifyScript_cost flags crypto checker.counting_sigCounter scriptSig scriptPubKey witness (s, n)).1

end BitcoinPQ

import BitcoinPQ.Models.Script.Verify

/-!
# Verification flags are soft forks

Each `SCRIPT_VERIFY_*` flag of `script/interpreter.h` adds checks and takes none away,
so that a script that verifies under a set of flags verifies under each of its
subsets. Over `Relax.Relaxes`, every stage of the interpreter run with flags `A`
relaxes the same stage run with flags `B`, where `A &&& B = A`: one lemma per
function, from the encoding checks through one instruction and the instruction loop
up to `VerifyScript`.

The checker's state is `Unit`: the checker is a deterministic oracle. With state, a
skipped `OP_CHECKLOCKTIMEVERIFY` would not be the same as a passed one, since the
check is a call.
-/

namespace BitcoinPQ

open Relax ScriptError

/-! ## Flag sets -/

/-- A flag of a subset is a flag of the whole set. -/
theorem hasFlag_mono {A B : UInt32} (hAB : A &&& B = A) {f : UInt32} (h : hasFlag A f) :
    hasFlag B f := by
  simp only [hasFlag, bne_iff_ne, ne_eq] at h ⊢
  intro hB
  apply h
  rw [← hAB, UInt32.and_assoc, hB, UInt32.and_zero]

/-- Asking for minimal encoding only rejects numbers. -/
theorem CScriptNum.ofVch_mono {vch : List UInt8} {r r' : Bool} {n : Nat} {x : Int}
    (hr : r' = true → r = true) (hx : CScriptNum.ofVch vch r n = some x) :
    CScriptNum.ofVch vch r' n = some x := by
  unfold CScriptNum.ofVch at hx ⊢
  by_cases hlen : vch.length > n
  · rw [if_pos hlen] at hx
    cases hx
  · rw [if_neg hlen] at hx ⊢
    cases r' with
    | false =>
      -- without the minimality requirement only the size is checked
      have hval : CScriptNum.set_vch vch = x := by
        split_ifs at hx
        exact Option.some.inj hx
      rw [Bool.false_and, if_neg Bool.false_ne_true, hval]
    | true =>
      rw [hr rfl] at hx
      exact hx

/-- A lifted `Except` check relaxes another when it succeeds wherever the other does. -/
theorem liftExcept_relaxes {σ α : Type} {e₁ e₂ : Except ScriptError α}
    (h : ∀ x, e₂ = .ok x → e₁ = .ok x) :
    Relaxes Eq (liftExcept e₁ : ScriptM σ α) (liftExcept e₂) := by
  cases e₂ with
  | error e => exact Relaxes.of_throw _ _
  | ok x =>
    rw [h x rfl]
    exact Relaxes.refl _

section Flags

variable {A B : UInt32} (hAB : A &&& B = A)
include hAB

/-- A guard on `flag && c` of the subset fails only where the whole set's fails. -/
theorem hasFlag_and_mono {f : UInt32} {c : Bool} (h : (hasFlag A f && c) = true) :
    (hasFlag B f && c) = true := by
  rw [Bool.and_eq_true] at h ⊢
  exact ⟨hasFlag_mono hAB h.1, h.2⟩

theorem hasFlag_mid_mono {f : UInt32} {b c : Bool} (h : (b && hasFlag A f && c) = true) :
    (b && hasFlag B f && c) = true := by
  simp only [Bool.and_eq_true] at h ⊢
  exact ⟨⟨h.1.1, hasFlag_mono hAB h.1.2⟩, h.2⟩

theorem CheckSignatureEncoding_mono (crypto : ScriptCrypto) {vchSig : valtype}
    (h : CheckSignatureEncoding crypto vchSig B = .ok ()) :
    CheckSignatureEncoding crypto vchSig A = .ok () := by
  rw [CheckSignatureEncoding_eq_ok] at h ⊢
  rcases h with hlen | ⟨hder, hlow, hstrict⟩
  · exact .inl hlen
  · exact .inr ⟨fun hA => hder (hasFlag_mono hAB hA), fun hA => hlow (hasFlag_mono hAB hA),
      fun hA => hstrict (hasFlag_mono hAB hA)⟩

theorem CheckPubKeyEncoding_mono (crypto : ScriptCrypto) {vchPubKey : valtype}
    {sigversion : SigVersion} (h : CheckPubKeyEncoding crypto vchPubKey B sigversion = .ok ()) :
    CheckPubKeyEncoding crypto vchPubKey A sigversion = .ok () := by
  rw [CheckPubKeyEncoding_eq_ok] at h ⊢
  obtain ⟨hder, hwit⟩ := h
  exact ⟨fun hA => hder (hasFlag_mono hAB hA), fun hA => hwit (hasFlag_mono hAB hA)⟩

theorem scriptNum_relaxes {σ : Type} (vch : valtype) (nMaxNumSize : Nat) :
    Relaxes Eq (scriptNum A vch nMaxNumSize : ScriptM σ Int) (scriptNum B vch nMaxNumSize) := by
  unfold scriptNum
  cases hB : CScriptNum.ofVch vch (hasFlag B SCRIPT_VERIFY_MINIMALDATA) nMaxNumSize with
  | none => exact Relaxes.of_throw _ _
  | some n =>
    rw [CScriptNum.ofVch_mono (hasFlag_mono hAB) hB]
    exact Relaxes.refl _

theorem checkMinimalIf_relaxes {σ : Type} (sigversion : SigVersion) (vch : valtype) :
    Relaxes Eq (checkMinimalIf A sigversion vch : ScriptM σ Unit)
      (checkMinimalIf B sigversion vch) :=
  Relaxes.failIf _ _ fun ⟨hv, hflag, hvch⟩ => ⟨hv, hasFlag_mono hAB hflag, hvch⟩

end Flags

/-! ## The interpreter -/

section LockTime

variable (flags : UInt32) (checker : BaseSignatureChecker Unit) (crypto : ScriptCrypto)
  (sigversion : SigVersion)

/-- `OP_CHECKLOCKTIMEVERIFY` fails or leaves the interpreter state as it is. -/
theorem ExecOp_checkLockTimeVerify_Returns (fExec : Bool) (pc : List UInt8) (st : ExecState) :
    Returns (ExecOp flags checker crypto sigversion fExec .checkLockTimeVerify pc st) st := by
  refine Returns.ite (Returns.of_pure st) ?_
  split
  · exact Returns.bind_of_subsingleton fun _ => Returns.bind_of_subsingleton fun _ =>
      Returns.bind_of_subsingleton fun _ => Returns.bind_of_subsingleton fun _ => Returns.of_pure st
  · exact Returns.of_throw _ _

/-- `OP_CHECKSEQUENCEVERIFY` fails or leaves the interpreter state as it is. -/
theorem ExecOp_checkSequenceVerify_Returns (fExec : Bool) (pc : List UInt8) (st : ExecState) :
    Returns (ExecOp flags checker crypto sigversion fExec .checkSequenceVerify pc st) st := by
  refine Returns.ite (Returns.of_pure st) ?_
  split
  · refine Returns.bind_of_subsingleton fun _ => Returns.bind_of_subsingleton fun _ =>
      Returns.ite (Returns.of_pure st) ?_
    exact Returns.bind_of_subsingleton fun _ => Returns.bind_of_subsingleton fun _ =>
      Returns.of_pure st
  · exact Returns.of_throw _ _

end LockTime

section Exec

variable {A B : UInt32} (hAB : A &&& B = A) (checker : BaseSignatureChecker Unit)
  (crypto : ScriptCrypto) (sigversion : SigVersion)
include hAB

theorem checkMultiSigLoop_relaxes (scriptCode : CScript) (sigs keys : List valtype) :
    Relaxes Eq (checkMultiSigLoop A checker crypto sigversion scriptCode sigs keys)
      (checkMultiSigLoop B checker crypto sigversion scriptCode sigs keys) := by
  induction keys generalizing sigs with
  | nil => cases sigs <;> exact Relaxes.refl _
  | cons vchPubKey keys ih =>
    cases sigs with
    | nil => exact Relaxes.refl _
    | cons vchSig sigs =>
      simp only [checkMultiSigLoop]
      refine Relaxes.bind_eq (liftExcept_relaxes fun _ h => ?_) fun _ =>
        Relaxes.bind_eq (liftExcept_relaxes fun _ h => ?_) fun _ =>
          Relaxes.bind_eq (Relaxes.refl _) fun fOk => Relaxes.ite (fun _ => Relaxes.refl _) ?_
      · exact CheckSignatureEncoding_mono hAB crypto h
      · exact CheckPubKeyEncoding_mono hAB crypto h
      · exact fun _ => ih _

theorem execCheckSig_relaxes (fVerify : Bool) (st : ExecState) :
    Relaxes Eq (execCheckSig A checker crypto sigversion fVerify st)
      (execCheckSig B checker crypto sigversion fVerify st) := by
  rcases st with ⟨_ | ⟨vchPubKey, _ | ⟨vchSig, stack⟩⟩, altstack, vfExec, nOpCount, codehash⟩
  · exact Relaxes.of_throw _ _
  · exact Relaxes.of_throw _ _
  refine Relaxes.bind_eq (liftExcept_relaxes fun _ h => ?_) fun _ =>
    Relaxes.bind_eq (liftExcept_relaxes fun _ h => ?_) fun _ =>
      Relaxes.bind_eq (Relaxes.refl _) fun fSuccess =>
        Relaxes.bind_eq (Relaxes.failIf _ _ fun h => ?_) fun _ => Relaxes.refl _
  · exact CheckSignatureEncoding_mono hAB crypto h
  · exact CheckPubKeyEncoding_mono hAB crypto h
  · exact hasFlag_mid_mono hAB h

theorem execCheckMultiSig_relaxes (fVerify : Bool) (st : ExecState) :
    Relaxes Eq (execCheckMultiSig A checker crypto sigversion fVerify st)
      (execCheckMultiSig B checker crypto sigversion fVerify st) := by
  rcases st with ⟨_ | ⟨top, stack⟩, altstack, vfExec, nOpCount, codehash⟩
  · exact Relaxes.of_throw _ _
  refine Relaxes.bind_eq (scriptNum_relaxes hAB _ _) fun nKeysCount =>
    Relaxes.bind_eq (Relaxes.refl _) fun _ => Relaxes.bind_eq (Relaxes.refl _) fun _ => ?_
  split
  · refine Relaxes.bind_eq (scriptNum_relaxes hAB _ _) fun nSigsCount =>
      Relaxes.bind_eq (Relaxes.refl _) fun _ => Relaxes.bind_eq (Relaxes.refl _) fun _ =>
        Relaxes.bind_eq (checkMultiSigLoop_relaxes hAB checker crypto sigversion _ _ _) fun fSuccess =>
          Relaxes.bind_eq (Relaxes.failIf _ _ (hasFlag_mid_mono hAB)) fun _ => ?_
    split
    · exact Relaxes.bind_eq (Relaxes.failIf _ _ (hasFlag_and_mono hAB)) fun _ => Relaxes.refl _
    · exact Relaxes.of_throw _ _
  · exact Relaxes.of_throw _ _

theorem ExecOp_relaxes (fExec : Bool) (op : Op) (pc : List UInt8) (st : ExecState) :
    Relaxes Eq (ExecOp A checker crypto sigversion fExec op pc st)
      (ExecOp B checker crypto sigversion fExec op pc st) := by
  cases op with
  | checkLockTimeVerify =>
    by_cases hA : hasFlag A SCRIPT_VERIFY_CHECKLOCKTIMEVERIFY
    · simp only [ExecOp, hA, hasFlag_mono hAB hA, Bool.not_true, Bool.false_eq_true, if_false]
      split
      · exact Relaxes.bind_eq (scriptNum_relaxes hAB _ _) fun _ => Relaxes.refl _
      · exact Relaxes.of_throw _ _
    · -- not enabled under `A`: a NOP, and under `B` a check that returns the state
      have hnop : ExecOp A checker crypto sigversion fExec .checkLockTimeVerify pc st = pure st := by
        simp [ExecOp, hA]
      rw [hnop]
      exact Relaxes.pure_of_Returns (ExecOp_checkLockTimeVerify_Returns B checker crypto _ _ _ _)
  | checkSequenceVerify =>
    by_cases hA : hasFlag A SCRIPT_VERIFY_CHECKSEQUENCEVERIFY
    · simp only [ExecOp, hA, hasFlag_mono hAB hA, Bool.not_true, Bool.false_eq_true, if_false]
      split
      · exact Relaxes.bind_eq (scriptNum_relaxes hAB _ _) fun _ => Relaxes.refl _
      · exact Relaxes.of_throw _ _
    · have hnop : ExecOp A checker crypto sigversion fExec .checkSequenceVerify pc st = pure st := by
        simp [ExecOp, hA]
      rw [hnop]
      exact Relaxes.pure_of_Returns (ExecOp_checkSequenceVerify_Returns B checker crypto _ _ _ _)
  | nopUpgradable =>
    exact Relaxes.ite_throw _ _ (hasFlag_mono hAB) fun _ => Relaxes.refl _
  | if_ fNotIf =>
    refine Relaxes.ite (fun _ => ?_) fun _ => Relaxes.refl _
    rcases st with ⟨_ | ⟨vch, stack⟩, altstack, vfExec, nOpCount, codehash⟩
    · exact Relaxes.of_throw _ _
    · exact Relaxes.bind_eq (checkMinimalIf_relaxes hAB sigversion vch) fun _ => Relaxes.refl _
  | pickRoll fRoll =>
    rcases st with ⟨_ | ⟨top, _ | ⟨vch, stack⟩⟩, altstack, vfExec, nOpCount, codehash⟩
    · exact Relaxes.of_throw _ _
    · exact Relaxes.of_throw _ _
    · exact Relaxes.bind_eq (scriptNum_relaxes hAB _ _) fun _ => Relaxes.refl _
  | unary uop =>
    rcases st with ⟨_ | ⟨vch, stack⟩, altstack, vfExec, nOpCount, codehash⟩
    · exact Relaxes.of_throw _ _
    · exact Relaxes.bind_eq (scriptNum_relaxes hAB _ _) fun _ => Relaxes.refl _
  | binary bop =>
    rcases st with ⟨_ | ⟨vch2, _ | ⟨vch1, stack⟩⟩, altstack, vfExec, nOpCount, codehash⟩
    · exact Relaxes.of_throw _ _
    · exact Relaxes.of_throw _ _
    · exact Relaxes.bind_eq (scriptNum_relaxes hAB _ _) fun _ =>
        Relaxes.bind_eq (scriptNum_relaxes hAB _ _) fun _ => Relaxes.refl _
  | within =>
    rcases st with ⟨_ | ⟨vch3, _ | ⟨vch2, _ | ⟨vch1, stack⟩⟩⟩, altstack, vfExec, nOpCount, codehash⟩
    · exact Relaxes.of_throw _ _
    · exact Relaxes.of_throw _ _
    · exact Relaxes.of_throw _ _
    · exact Relaxes.bind_eq (scriptNum_relaxes hAB _ _) fun _ =>
        Relaxes.bind_eq (scriptNum_relaxes hAB _ _) fun _ =>
          Relaxes.bind_eq (scriptNum_relaxes hAB _ _) fun _ => Relaxes.refl _
  | checkSig fVerify => exact execCheckSig_relaxes hAB checker crypto sigversion fVerify st
  | checkMultiSig fVerify => exact execCheckMultiSig_relaxes hAB checker crypto sigversion fVerify st
  -- the other instructions read no flag
  | _ => exact Relaxes.refl _

theorem EvalStep_relaxes (opcode : opcodetype) (vchPushValue : valtype) (pc : List UInt8)
    (st : ExecState) :
    Relaxes Eq (EvalStep A checker crypto sigversion opcode vchPushValue pc st)
      (EvalStep B checker crypto sigversion opcode vchPushValue pc st) := by
  unfold EvalStep
  refine Relaxes.bind_eq (Relaxes.refl _) fun _ => Relaxes.bind_eq (Relaxes.refl _) fun _ =>
    Relaxes.bind_eq (Relaxes.refl _) fun _ => Relaxes.bind_eq ?_ fun _ => Relaxes.refl _
  -- a push, checked for minimality, or an instruction
  refine Relaxes.ite (fun _ => ?_) fun _ => Relaxes.ite (fun _ => ?_) fun _ => Relaxes.refl _
  · exact Relaxes.bind_eq (Relaxes.failIf _ _ (hasFlag_and_mono hAB)) fun _ => Relaxes.refl _
  · exact ExecOp_relaxes hAB checker crypto sigversion _ _ _ _

/-- The instruction loop, by induction on the script left to run. -/
theorem EvalLoop_relaxes (pc : List UInt8) (st : ExecState) :
    Relaxes Eq (EvalLoop A checker crypto sigversion pc st)
      (EvalLoop B checker crypto sigversion pc st) := by
  induction pc, st using EvalLoop.induct with
  | case1 st =>
    rw [EvalLoop_nil, EvalLoop_nil]
    exact Relaxes.refl _
  | case2 pc st hpc _ _ _ hop =>
    have hfail : (GetOp2 pc).1 = false := by rw [hop]
    rw [EvalLoop_of_GetOp2_false _ _ _ _ hpc hfail, EvalLoop_of_GetOp2_false _ _ _ _ hpc hfail]
    exact Relaxes.of_throw _ _
  | case3 pc st _ _ _ _ hop _ ih =>
    rw [EvalLoop_of_GetOp2 _ _ _ _ hop, EvalLoop_of_GetOp2 _ _ _ _ hop]
    exact Relaxes.bind_eq (EvalStep_relaxes hAB checker crypto sigversion _ _ _ _) ih

theorem EvalScript_relaxes (stack : List valtype) (script : CScript) :
    Relaxes Eq (EvalScript A checker crypto sigversion stack script)
      (EvalScript B checker crypto sigversion stack script) :=
  Relaxes.bind_eq (Relaxes.refl _) fun _ =>
    Relaxes.bind_eq (EvalLoop_relaxes hAB checker crypto sigversion _ _) fun _ => Relaxes.refl _

end Exec

/-! ## Verification -/

section Verify

variable {A B : UInt32} (hAB : A &&& B = A) (checker : BaseSignatureChecker Unit)
  (crypto : ScriptCrypto)
include hAB

theorem witnessProgramScript_relaxes (witness : CScriptWitness) (witversion : Nat)
    (program : List UInt8) :
    Relaxes Eq (witnessProgramScript A crypto witness witversion program : ScriptM Unit _)
      (witnessProgramScript B crypto witness witversion program) := by
  unfold witnessProgramScript
  -- only an unknown version reads a flag
  refine Relaxes.ite (fun _ => Relaxes.refl _) fun _ => Relaxes.ite (fun _ => Relaxes.refl _) fun _ => ?_
  exact Relaxes.ite_throw _ _ (hasFlag_mono hAB) fun _ => Relaxes.refl _

theorem VerifyWitnessProgram_relaxes (witness : CScriptWitness) (witversion : Nat)
    (program : List UInt8) :
    Relaxes Eq (VerifyWitnessProgram A checker crypto witness witversion program)
      (VerifyWitnessProgram B checker crypto witness witversion program) := by
  refine Relaxes.bind_eq (witnessProgramScript_relaxes hAB crypto witness witversion program) ?_
  rintro (_ | ⟨scriptPubKey, stack⟩)
  · exact Relaxes.refl _
  · exact Relaxes.bind_eq (Relaxes.refl _) fun _ =>
      Relaxes.bind_eq (EvalScript_relaxes hAB checker crypto _ _ _) fun _ => Relaxes.refl _

/-- The pay-to-script-hash stage, when both flag sets evaluate nested witness programs. -/
theorem verifyP2SH_relaxes (hW : hasFlag A SCRIPT_VERIFY_WITNESS) (scriptSig : CScript)
    (witness : CScriptWitness) (stackCopy : List valtype) :
    Relaxes Eq (verifyP2SH A checker crypto scriptSig witness stackCopy)
      (verifyP2SH B checker crypto scriptSig witness stackCopy) := by
  refine Relaxes.bind_eq (Relaxes.refl _) fun _ => ?_
  rcases stackCopy with _ | ⟨pubKeySerialized, stack⟩
  · exact Relaxes.of_throw _ _
  refine Relaxes.bind_eq (EvalScript_relaxes hAB checker crypto _ _ _) fun stack =>
    Relaxes.bind_eq (Relaxes.refl _) fun _ => ?_
  rw [if_pos hW, if_pos (hasFlag_mono hAB hW)]
  split
  · exact Relaxes.bind_eq (Relaxes.refl _) fun _ =>
      Relaxes.bind_eq (VerifyWitnessProgram_relaxes hAB checker crypto _ _ _) fun _ => Relaxes.refl _
  · exact Relaxes.refl _

/-- The pay-to-script-hash stage without nested witness programs succeeds wherever
the stage with them does. -/
theorem verifyP2SH_succeeds (hW : ¬hasFlag A SCRIPT_VERIFY_WITNESS) (scriptSig : CScript)
    (witness : CScriptWitness) (stackCopy : List valtype) :
    Relaxes (fun _ _ => True) (verifyP2SH A checker crypto scriptSig witness stackCopy)
      (verifyP2SH B checker crypto scriptSig witness stackCopy) := by
  refine Relaxes.bind_eq (Relaxes.refl _) fun _ => ?_
  rcases stackCopy with _ | ⟨pubKeySerialized, stack⟩
  · exact Relaxes.of_throw _ _
  refine Relaxes.bind_eq (EvalScript_relaxes hAB checker crypto _ _ _) fun stack =>
    Relaxes.bind_eq (Relaxes.refl _) fun _ => ?_
  -- without `WITNESS` the stage ends here
  rw [if_neg hW]
  exact Relaxes.pure_of_subsingleton _ _

variable (scriptSig scriptPubKey : CScript) (witness : CScriptWitness)

/-- With `WITNESS` in both sets, each stage of `VerifyScript` relaxes its counterpart. -/
theorem VerifyScript_relaxes (hA : FlagsConsistent A) (hW : hasFlag A SCRIPT_VERIFY_WITNESS) :
    Relaxes Eq (VerifyScript A checker crypto scriptSig scriptPubKey witness)
      (VerifyScript B checker crypto scriptSig scriptPubKey witness) := by
  have hP : hasFlag A SCRIPT_VERIFY_P2SH := hA.2 hW
  unfold VerifyScript
  simp only [hW, hasFlag_mono hAB hW, hP, hasFlag_mono hAB hP, if_true, Bool.true_and]
  refine Relaxes.bind_eq (Relaxes.failIf _ _ (hasFlag_and_mono hAB)) fun _ =>
    Relaxes.bind_eq (EvalScript_relaxes hAB checker crypto _ _ _) fun stackCopy =>
      Relaxes.bind_eq (EvalScript_relaxes hAB checker crypto _ _ _) fun stack =>
        Relaxes.bind_eq (Relaxes.refl _) fun _ => Relaxes.bind_eq ?_ fun _ => ?_
  · -- a bare witness program
    split
    · exact Relaxes.bind_eq (Relaxes.refl _) fun _ =>
        Relaxes.bind_eq (VerifyWitnessProgram_relaxes hAB checker crypto _ _ _) fun _ =>
          Relaxes.refl _
    · exact Relaxes.refl _
  · -- pay-to-script-hash, then the clean-stack rule
    refine Relaxes.bind_eq ?_ fun _ =>
      Relaxes.bind_eq (Relaxes.failIf _ _ (hasFlag_and_mono hAB)) fun _ =>
        Relaxes.failIf _ _ fun h => ?_
    · exact Relaxes.ite (fun _ => Relaxes.bind_eq (verifyP2SH_relaxes hAB checker crypto hW _ _ _)
        fun _ => Relaxes.refl _) fun _ => Relaxes.refl _
    · rw [Bool.and_eq_true] at h ⊢
      exact ⟨hasFlag_and_mono hAB h.1, h.2⟩

/-- Without `WITNESS` in the subset, which then has no `CLEANSTACK` either, `VerifyScript`
succeeds wherever it does with the whole set. -/
theorem VerifyScript_succeeds (hA : FlagsConsistent A) (hW : ¬hasFlag A SCRIPT_VERIFY_WITNESS) :
    Relaxes (fun _ _ => True) (VerifyScript A checker crypto scriptSig scriptPubKey witness)
      (VerifyScript B checker crypto scriptSig scriptPubKey witness) := by
  have hC : ¬hasFlag A SCRIPT_VERIFY_CLEANSTACK := fun hC => hW (hA.1 hC).2
  unfold VerifyScript
  simp only [hW]
  refine Relaxes.bind_eq (Relaxes.failIf _ _ (hasFlag_and_mono hAB)) fun _ =>
    Relaxes.bind_eq (EvalScript_relaxes hAB checker crypto _ _ _) fun stackCopy =>
      Relaxes.bind_eq (EvalScript_relaxes hAB checker crypto _ _ _) fun stack =>
        Relaxes.bind_eq (Relaxes.refl _) fun _ =>
          Relaxes.bind (Relaxes.pure_of_subsingleton _ _) fun _ _ _ => ?_
  -- the subset skips every later check but the pay-to-script-hash stage
  refine Relaxes.bind (?_ : Relaxes (fun _ _ => True) _ _) fun _ _ _ => ?_
  · by_cases hp : (hasFlag A SCRIPT_VERIFY_P2SH && IsPayToScriptHash scriptPubKey) = true
    · rw [if_pos hp, if_pos (hasFlag_and_mono hAB hp)]
      exact Relaxes.bind (verifyP2SH_succeeds hAB checker crypto hW _ _ _) fun _ _ _ =>
        Relaxes.pure_of_subsingleton _ _
    · rw [if_neg hp]
      exact Relaxes.pure_of_subsingleton _ _
  · rw [failIf_neg _ (by simp [hC]), pure_bind, failIf_neg _ (by simp [hW])]
    exact Relaxes.pure_of_subsingleton _ _

end Verify

/-- Script verification flags are soft forks: for flag sets `A ⊆ B`, where `A`
respects the dependencies `VerifyScript` asserts, every input that verifies under `B`
verifies under `A`, for any deterministic signature checker. -/
theorem VerifyScript_soft_fork (A B : UInt32) (hAB : A &&& B = A) (hA : FlagsConsistent A)
    (checker : BaseSignatureChecker Unit) (crypto : ScriptCrypto) (scriptSig scriptPubKey : CScript)
    (witness : CScriptWitness)
    (hB : (VerifyScript B checker crypto scriptSig scriptPubKey witness).run.run () = (.ok (), ())) :
    (VerifyScript A checker crypto scriptSig scriptPubKey witness).run.run () = (.ok (), ()) := by
  by_cases hW : hasFlag A SCRIPT_VERIFY_WITNESS
  · exact (VerifyScript_relaxes hAB checker crypto scriptSig scriptPubKey witness hA hW).eq_ok hB
  · obtain ⟨_, hA', -⟩ :=
      VerifyScript_succeeds hAB checker crypto scriptSig scriptPubKey witness hA hW () () () hB
    exact hA'



/-- An input that verifies with `MINIMALDATA` verifies without it. -/
theorem VerifyScript_soft_fork_minimaldata :
    let checker : BaseSignatureChecker Unit :=
      .ofFunctions (fun _ _ _ _ => true) (fun _ => true) (fun _ => true)
    let crypto : ScriptCrypto := ⟨id, id, id, id, fun _ => true, fun _ => true, fun _ => true,
      fun _ => true, fun _ => false, fun _ => true⟩
    (VerifyScript (SCRIPT_VERIFY_P2SH ||| SCRIPT_VERIFY_MINIMALDATA) checker crypto []
        [0x02, 0x02, 0x02] ⟨[]⟩).run.run () = (.ok (), ()) ∧
      (VerifyScript SCRIPT_VERIFY_P2SH checker crypto [] [0x02, 0x02, 0x02] ⟨[]⟩).run.run () =
        (.ok (), ()) := by
  intro checker crypto
  have hop : GetOp2 [0x02, 0x02, 0x02] = (true, 0x02, [0x02, 0x02], []) := rfl
  have hB : (VerifyScript (SCRIPT_VERIFY_P2SH ||| SCRIPT_VERIFY_MINIMALDATA) checker crypto []
      [0x02, 0x02, 0x02] ⟨[]⟩).run.run () = (.ok (), ()) := by
    simp only [VerifyScript, EvalScript, EvalLoop_nil, EvalLoop_of_GetOp2 _ _ _ _ hop]
    rfl
  exact ⟨hB, VerifyScript_soft_fork _ _ (by decide) (by decide) checker crypto [] [0x02, 0x02, 0x02]
    ⟨[]⟩ hB⟩

end BitcoinPQ

import BitcoinPQ.Core.Relax
import BitcoinPQ.Models.Script.SigHash

/-!
# The script interpreter

`EvalScript` of `script/interpreter.cpp`. The stack is a list whose head is
`stack.back()`; the condition stack `vfExec` likewise. A run carries the state of
the signature checker, so that a checker which records what it is asked (as
`CollectorSignatureChecker` does) is modelled too, and a failed run keeps the checker
state it reached. Exceptions that `EvalScript` catches (`scriptnum_error`, an empty
`popstack`) fail with `SCRIPT_ERR_UNKNOWN_ERROR` where they are raised.

The hash functions and the key and signature encodings of `bpqcrypto` are parameters:
the first are vendored code too large to embed, the second live outside the
repository.
-/

namespace BitcoinPQ

open Wire Relax

/-- `ScriptError`. -/
inductive ScriptError
  | SCRIPT_ERR_OK
  | SCRIPT_ERR_UNKNOWN_ERROR
  | SCRIPT_ERR_EVAL_FALSE
  | SCRIPT_ERR_OP_RETURN
  | SCRIPT_ERR_SCRIPT_SIZE
  | SCRIPT_ERR_PUSH_SIZE
  | SCRIPT_ERR_OP_COUNT
  | SCRIPT_ERR_STACK_SIZE
  | SCRIPT_ERR_SIG_COUNT
  | SCRIPT_ERR_PUBKEY_COUNT
  | SCRIPT_ERR_VERIFY
  | SCRIPT_ERR_EQUALVERIFY
  | SCRIPT_ERR_CHECKMULTISIGVERIFY
  | SCRIPT_ERR_CHECKSIGVERIFY
  | SCRIPT_ERR_NUMEQUALVERIFY
  | SCRIPT_ERR_BAD_OPCODE
  | SCRIPT_ERR_DISABLED_OPCODE
  | SCRIPT_ERR_INVALID_STACK_OPERATION
  | SCRIPT_ERR_INVALID_ALTSTACK_OPERATION
  | SCRIPT_ERR_UNBALANCED_CONDITIONAL
  | SCRIPT_ERR_NEGATIVE_LOCKTIME
  | SCRIPT_ERR_UNSATISFIED_LOCKTIME
  | SCRIPT_ERR_SIG_HASHTYPE
  | SCRIPT_ERR_SIG_DER
  | SCRIPT_ERR_MINIMALDATA
  | SCRIPT_ERR_SIG_PUSHONLY
  | SCRIPT_ERR_SIG_HIGH_S
  | SCRIPT_ERR_SIG_NULLDUMMY
  | SCRIPT_ERR_PUBKEYTYPE
  | SCRIPT_ERR_CLEANSTACK
  | SCRIPT_ERR_MINIMALIF
  | SCRIPT_ERR_SIG_NULLFAIL
  | SCRIPT_ERR_DISCOURAGE_UPGRADABLE_NOPS
  | SCRIPT_ERR_DISCOURAGE_UPGRADABLE_WITNESS_PROGRAM
  | SCRIPT_ERR_WITNESS_PROGRAM_WRONG_LENGTH
  | SCRIPT_ERR_WITNESS_PROGRAM_WITNESS_EMPTY
  | SCRIPT_ERR_WITNESS_PROGRAM_MISMATCH
  | SCRIPT_ERR_WITNESS_MALLEATED
  | SCRIPT_ERR_WITNESS_MALLEATED_P2SH
  | SCRIPT_ERR_WITNESS_UNEXPECTED
  | SCRIPT_ERR_WITNESS_PUBKEYTYPE
  deriving DecidableEq, Repr

open ScriptError

/-! ## Verification flags -/

def SCRIPT_VERIFY_NONE : UInt32 := 0
def SCRIPT_VERIFY_P2SH : UInt32 := (1 : UInt32) <<< 0
def SCRIPT_VERIFY_STRICTENC : UInt32 := (1 : UInt32) <<< 1
def SCRIPT_VERIFY_DERSIG : UInt32 := (1 : UInt32) <<< 2
def SCRIPT_VERIFY_LOW_S : UInt32 := (1 : UInt32) <<< 3
def SCRIPT_VERIFY_NULLDUMMY : UInt32 := (1 : UInt32) <<< 4
def SCRIPT_VERIFY_SIGPUSHONLY : UInt32 := (1 : UInt32) <<< 5
def SCRIPT_VERIFY_MINIMALDATA : UInt32 := (1 : UInt32) <<< 6
def SCRIPT_VERIFY_DISCOURAGE_UPGRADABLE_NOPS : UInt32 := (1 : UInt32) <<< 7
def SCRIPT_VERIFY_CLEANSTACK : UInt32 := (1 : UInt32) <<< 8
def SCRIPT_VERIFY_CHECKLOCKTIMEVERIFY : UInt32 := (1 : UInt32) <<< 9
def SCRIPT_VERIFY_CHECKSEQUENCEVERIFY : UInt32 := (1 : UInt32) <<< 10
def SCRIPT_VERIFY_WITNESS : UInt32 := (1 : UInt32) <<< 11
def SCRIPT_VERIFY_DISCOURAGE_UPGRADABLE_WITNESS_PROGRAM : UInt32 := (1 : UInt32) <<< 12
def SCRIPT_VERIFY_MINIMALIF : UInt32 := (1 : UInt32) <<< 13
def SCRIPT_VERIFY_NULLFAIL : UInt32 := (1 : UInt32) <<< 14
def SCRIPT_VERIFY_WITNESS_PUBKEYTYPE : UInt32 := (1 : UInt32) <<< 15

/-- `flags & f` is non-zero. -/
def hasFlag (flags f : UInt32) : Bool := flags &&& f != 0

/-! ## Code outside the model -/

/-- The hash functions `EvalScript` and `VerifyWitnessProgram` call, and the key and
signature encoding tests of `bpqcrypto`. -/
structure ScriptCrypto where
  ripemd160 : List UInt8 → List UInt8
  sha1 : List UInt8 → List UInt8
  sha256 : List UInt8 → List UInt8
  /-- `CScript::Hash_SHAKE128`, the program hash of witness version 1. -/
  hash256_shake128 : List UInt8 → List UInt8
  is_xmss_pubkey : List UInt8 → Bool
  is_ecdsa_pubkey : List UInt8 → Bool
  is_ecdsa_compressed_pubkey : List UInt8 → Bool
  ecdsa_check_der_signature : List UInt8 → Bool
  xmss_is_der_signature : List UInt8 → Bool
  ecdsa_check_lower_S : List UInt8 → Bool

/-- `CHash160`: RIPEMD-160 of SHA-256. -/
def ScriptCrypto.hash160 (c : ScriptCrypto) (x : List UInt8) : List UInt8 :=
  c.ripemd160 (c.sha256 x)

/-- `CHash256`: SHA-256 twice. -/
def ScriptCrypto.hash256 (c : ScriptCrypto) (x : List UInt8) : List UInt8 :=
  c.sha256 (c.sha256 x)

/-- A run of the interpreter: it fails with a `ScriptError` or succeeds, and either way
leaves the checker in the state it reached. -/
abbrev ScriptM (σ : Type) := ExceptT ScriptError (StateM σ)

/-- `BaseSignatureChecker`, with the state a checker may keep between calls. -/
structure BaseSignatureChecker (σ : Type) where
  CheckSig : valtype → valtype → CScript → SigVersion → StateM σ Bool
  CheckLockTime : Int → StateM σ Bool
  CheckSequence : Int → StateM σ Bool

/-- A checker that answers from fixed functions and keeps no state. -/
def BaseSignatureChecker.ofFunctions {σ : Type}
    (checkSig : valtype → valtype → CScript → SigVersion → Bool)
    (checkLockTime checkSequence : Int → Bool) : BaseSignatureChecker σ where
  CheckSig sig pubkey scriptCode sigversion := pure (checkSig sig pubkey scriptCode sigversion)
  CheckLockTime n := pure (checkLockTime n)
  CheckSequence n := pure (checkSequence n)

/-! ## Encoding checks -/

section Encodings

variable (crypto : ScriptCrypto)

def IsDerPubKey (vchPubKey : valtype) : Bool :=
  crypto.is_ecdsa_pubkey vchPubKey || crypto.is_xmss_pubkey vchPubKey

def IsValidSignatureEncoding (sig : valtype) : Bool :=
  crypto.ecdsa_check_der_signature sig || crypto.xmss_is_der_signature sig

/-- `IsLowDERSignature`: an ECDSA signature must have a low `S` (tested without the
hash-type byte); an XMSS signature passes. -/
def IsLowDERSignature (vchSig : valtype) : Except ScriptError Unit :=
  if crypto.ecdsa_check_der_signature vchSig then
    if !crypto.ecdsa_check_lower_S vchSig.dropLast then throw SCRIPT_ERR_SIG_HIGH_S else pure ()
  else if crypto.xmss_is_der_signature vchSig then pure ()
  else throw SCRIPT_ERR_SIG_DER

/-- `IsDefinedHashtypeSignature`: the last byte without `SIGHASH_ANYONECANPAY` is
`SIGHASH_ALL`, `SIGHASH_NONE` or `SIGHASH_SINGLE`. -/
def IsDefinedHashtypeSignature (vchSig : valtype) : Bool :=
  match vchSig.getLast? with
  | none => false
  | some last =>
    let nHashType := last &&& ~~~0x80
    !(nHashType < 1 || nHashType > 3)

/-- `CheckSignatureEncoding`. -/
def CheckSignatureEncoding (vchSig : valtype) (flags : UInt32) : Except ScriptError Unit :=
  if vchSig.length = 0 then pure ()
  else if hasFlag flags (SCRIPT_VERIFY_DERSIG ||| SCRIPT_VERIFY_LOW_S ||| SCRIPT_VERIFY_STRICTENC) &&
      !IsValidSignatureEncoding crypto vchSig then throw SCRIPT_ERR_SIG_DER
  else do
    if hasFlag flags SCRIPT_VERIFY_LOW_S then IsLowDERSignature crypto vchSig
    if hasFlag flags SCRIPT_VERIFY_STRICTENC && !IsDefinedHashtypeSignature vchSig then
      throw SCRIPT_ERR_SIG_HASHTYPE

/-- `CheckPubKeyEncoding`: compressed ECDSA keys only in version 0 witness scripts. -/
def CheckPubKeyEncoding (vchPubKey : valtype) (flags : UInt32) (sigversion : SigVersion) :
    Except ScriptError Unit := do
  if hasFlag flags SCRIPT_VERIFY_STRICTENC && !IsDerPubKey crypto vchPubKey then
    throw SCRIPT_ERR_PUBKEYTYPE
  if hasFlag flags SCRIPT_VERIFY_WITNESS_PUBKEYTYPE && !crypto.is_xmss_pubkey vchPubKey &&
      sigversion = .SIGVERSION_WITNESS_V0 && !crypto.is_ecdsa_compressed_pubkey vchPubKey then
    throw SCRIPT_ERR_WITNESS_PUBKEYTYPE

/-- What `CheckSignatureEncoding` accepts: the empty signature, or one that passes
each check its flags ask for. -/
theorem CheckSignatureEncoding_eq_ok (vchSig : valtype) (flags : UInt32) :
    CheckSignatureEncoding crypto vchSig flags = .ok () ↔
      vchSig.length = 0 ∨
        ((hasFlag flags (SCRIPT_VERIFY_DERSIG ||| SCRIPT_VERIFY_LOW_S ||| SCRIPT_VERIFY_STRICTENC) →
            IsValidSignatureEncoding crypto vchSig) ∧
          (hasFlag flags SCRIPT_VERIFY_LOW_S → IsLowDERSignature crypto vchSig = .ok ()) ∧
          (hasFlag flags SCRIPT_VERIFY_STRICTENC → IsDefinedHashtypeSignature vchSig)) := by
  unfold CheckSignatureEncoding
  by_cases hlen : vchSig.length = 0
  · simp only [hlen, if_true, true_or, iff_true]
    rfl
  rw [if_neg hlen, or_iff_right hlen]
  -- the `else if` chain of the source: DER, then low S, then the hash type
  by_cases hder : hasFlag flags (SCRIPT_VERIFY_DERSIG ||| SCRIPT_VERIFY_LOW_S ||| SCRIPT_VERIFY_STRICTENC) &&
      !IsValidSignatureEncoding crypto vchSig
  · rw [if_pos hder]
    simp_all
  rw [if_neg hder]
  by_cases hL : hasFlag flags SCRIPT_VERIFY_LOW_S
  · cases hlow : IsLowDERSignature crypto vchSig <;> simp_all [except_pure]
  · simp_all [except_pure]

/-- What `CheckPubKeyEncoding` accepts. -/
theorem CheckPubKeyEncoding_eq_ok (vchPubKey : valtype) (flags : UInt32) (sigversion : SigVersion) :
    CheckPubKeyEncoding crypto vchPubKey flags sigversion = .ok () ↔
      (hasFlag flags SCRIPT_VERIFY_STRICTENC → IsDerPubKey crypto vchPubKey) ∧
        (hasFlag flags SCRIPT_VERIFY_WITNESS_PUBKEYTYPE → crypto.is_xmss_pubkey vchPubKey = false →
          sigversion = .SIGVERSION_WITNESS_V0 → crypto.is_ecdsa_compressed_pubkey vchPubKey) := by
  unfold CheckPubKeyEncoding
  by_cases hder : hasFlag flags SCRIPT_VERIFY_STRICTENC && !IsDerPubKey crypto vchPubKey
  · rw [if_pos hder]
    simp_all
  · rw [if_neg hder]
    dsimp only
    rw [except_ite_throw_eq_ok]
    simp_all

end Encodings

/-- `CheckMinimalPush`: the push opcode is the shortest one for its data. -/
def CheckMinimalPush (data : valtype) (opcode : opcodetype) : Bool :=
  match data with
  | [] => opcode = OP_0
  | [b] =>
    if 1 ≤ b ∧ b ≤ 16 then opcode = OP_1 + (b - 1)
    else if b = 0x81 then opcode = OP_1NEGATE
    else opcode.toNat = 1
  | _ =>
    if data.length ≤ 75 then opcode.toNat = data.length
    else if data.length ≤ 255 then opcode = OP_PUSHDATA1
    else if data.length ≤ 65535 then opcode = OP_PUSHDATA2
    else true

/-! ## Opcodes -/

inductive UnaryOp
  | OP_1ADD | OP_1SUB | OP_NEGATE | OP_ABS | OP_NOT | OP_0NOTEQUAL
  deriving DecidableEq, Repr

inductive BinaryOp
  | OP_ADD | OP_SUB | OP_BOOLAND | OP_BOOLOR | OP_NUMEQUAL | OP_NUMEQUALVERIFY | OP_NUMNOTEQUAL
  | OP_LESSTHAN | OP_GREATERTHAN | OP_LESSTHANOREQUAL | OP_GREATERTHANOREQUAL | OP_MIN | OP_MAX
  deriving DecidableEq, Repr

inductive HashOp
  | OP_RIPEMD160 | OP_SHA1 | OP_SHA256 | OP_HASH160 | OP_HASH256
  deriving DecidableEq, Repr

/-- The cases of the `switch` of `EvalScript`; `bad` is its `default`. -/
inductive Op
  | pushValue (n : Int)
  | nop
  | checkLockTimeVerify
  | checkSequenceVerify
  | nopUpgradable
  | if_ (fNotIf : Bool)
  | else_
  | endif
  | verify
  | return_
  | toAltStack
  | fromAltStack
  | drop2
  | dup2
  | dup3
  | over2
  | rot2
  | swap2
  | ifdup
  | depth
  | drop
  | dup
  | nip
  | over
  | pickRoll (fRoll : Bool)
  | rot
  | swap
  | tuck
  | size
  | equal (fVerify : Bool)
  | unary (op : UnaryOp)
  | binary (op : BinaryOp)
  | within
  | hash (op : HashOp)
  | codeSeparator
  | checkSig (fVerify : Bool)
  | checkMultiSig (fVerify : Bool)
  | bad
  deriving DecidableEq, Repr

/-- The `case` labels of the `switch`, by opcode byte. -/
def Op.ofOpcode (opcode : opcodetype) : Op :=
  match opcode.toNat with
  | 0x4f => .pushValue (-1)
  | 0x61 => .nop
  | 0x63 => .if_ false
  | 0x64 => .if_ true
  | 0x67 => .else_
  | 0x68 => .endif
  | 0x69 => .verify
  | 0x6a => .return_
  | 0x6b => .toAltStack
  | 0x6c => .fromAltStack
  | 0x6d => .drop2
  | 0x6e => .dup2
  | 0x6f => .dup3
  | 0x70 => .over2
  | 0x71 => .rot2
  | 0x72 => .swap2
  | 0x73 => .ifdup
  | 0x74 => .depth
  | 0x75 => .drop
  | 0x76 => .dup
  | 0x77 => .nip
  | 0x78 => .over
  | 0x79 => .pickRoll false
  | 0x7a => .pickRoll true
  | 0x7b => .rot
  | 0x7c => .swap
  | 0x7d => .tuck
  | 0x82 => .size
  | 0x87 => .equal false
  | 0x88 => .equal true
  | 0x8b => .unary .OP_1ADD
  | 0x8c => .unary .OP_1SUB
  | 0x8f => .unary .OP_NEGATE
  | 0x90 => .unary .OP_ABS
  | 0x91 => .unary .OP_NOT
  | 0x92 => .unary .OP_0NOTEQUAL
  | 0x93 => .binary .OP_ADD
  | 0x94 => .binary .OP_SUB
  | 0x9a => .binary .OP_BOOLAND
  | 0x9b => .binary .OP_BOOLOR
  | 0x9c => .binary .OP_NUMEQUAL
  | 0x9d => .binary .OP_NUMEQUALVERIFY
  | 0x9e => .binary .OP_NUMNOTEQUAL
  | 0x9f => .binary .OP_LESSTHAN
  | 0xa0 => .binary .OP_GREATERTHAN
  | 0xa1 => .binary .OP_LESSTHANOREQUAL
  | 0xa2 => .binary .OP_GREATERTHANOREQUAL
  | 0xa3 => .binary .OP_MIN
  | 0xa4 => .binary .OP_MAX
  | 0xa5 => .within
  | 0xa6 => .hash .OP_RIPEMD160
  | 0xa7 => .hash .OP_SHA1
  | 0xa8 => .hash .OP_SHA256
  | 0xa9 => .hash .OP_HASH160
  | 0xaa => .hash .OP_HASH256
  | 0xab => .codeSeparator
  | 0xac => .checkSig false
  | 0xad => .checkSig true
  | 0xae => .checkMultiSig false
  | 0xaf => .checkMultiSig true
  | 0xb0 => .nopUpgradable
  | 0xb1 => .checkLockTimeVerify
  | 0xb2 => .checkSequenceVerify
  | n =>
    if 0x51 ≤ n ∧ n ≤ 0x60 then .pushValue (n - 0x50)
    else if 0xb3 ≤ n ∧ n ≤ 0xb9 then .nopUpgradable
    else .bad

/-- The opcodes `EvalScript` rejects before looking at the branch it is in. -/
def IsDisabledOpcode (opcode : opcodetype) : Bool :=
  opcode.toNat ∈ [0x7e, 0x7f, 0x80, 0x81, 0x83, 0x84, 0x85, 0x86, 0x8d, 0x8e, 0x95, 0x96, 0x97,
    0x98, 0x99]

/-- `CScriptNum(1)` and `CScriptNum(0)` as stack elements. -/
def vchTrue : valtype := [1]
def vchFalse : valtype := []

def UnaryOp.apply : UnaryOp → Int → Int
  | .OP_1ADD, bn => bn + 1
  | .OP_1SUB, bn => bn - 1
  | .OP_NEGATE, bn => -bn
  | .OP_ABS, bn => if bn < 0 then -bn else bn
  | .OP_NOT, bn => if bn = 0 then 1 else 0
  | .OP_0NOTEQUAL, bn => if bn ≠ 0 then 1 else 0

def BinaryOp.apply : BinaryOp → Int → Int → Int
  | .OP_ADD, bn1, bn2 => bn1 + bn2
  | .OP_SUB, bn1, bn2 => bn1 - bn2
  | .OP_BOOLAND, bn1, bn2 => if bn1 ≠ 0 ∧ bn2 ≠ 0 then 1 else 0
  | .OP_BOOLOR, bn1, bn2 => if bn1 ≠ 0 ∨ bn2 ≠ 0 then 1 else 0
  | .OP_NUMEQUAL, bn1, bn2 => if bn1 = bn2 then 1 else 0
  | .OP_NUMEQUALVERIFY, bn1, bn2 => if bn1 = bn2 then 1 else 0
  | .OP_NUMNOTEQUAL, bn1, bn2 => if bn1 ≠ bn2 then 1 else 0
  | .OP_LESSTHAN, bn1, bn2 => if bn1 < bn2 then 1 else 0
  | .OP_GREATERTHAN, bn1, bn2 => if bn1 > bn2 then 1 else 0
  | .OP_LESSTHANOREQUAL, bn1, bn2 => if bn1 ≤ bn2 then 1 else 0
  | .OP_GREATERTHANOREQUAL, bn1, bn2 => if bn1 ≥ bn2 then 1 else 0
  | .OP_MIN, bn1, bn2 => if bn1 < bn2 then bn1 else bn2
  | .OP_MAX, bn1, bn2 => if bn1 > bn2 then bn1 else bn2

def HashOp.apply (crypto : ScriptCrypto) : HashOp → List UInt8 → List UInt8
  | .OP_RIPEMD160 => crypto.ripemd160
  | .OP_SHA1 => crypto.sha1
  | .OP_SHA256 => crypto.sha256
  | .OP_HASH160 => crypto.hash160
  | .OP_HASH256 => crypto.hash256

/-! ## One instruction -/

/-- The interpreter's state between instructions. -/
structure ExecState where
  stack : List valtype
  altstack : List valtype
  vfExec : List Bool
  nOpCount : Nat
  /-- The script from the last executed `OP_CODESEPARATOR` on. -/
  pbegincodehash : List UInt8

section Exec

variable {σ : Type} (flags : UInt32) (checker : BaseSignatureChecker σ) (crypto : ScriptCrypto)
  (sigversion : SigVersion)

/-- An `Except` result inside a run. -/
def liftExcept {α : Type} : Except ScriptError α → ScriptM σ α
  | .ok a => pure a
  | .error e => throw e

/-- A `CScriptNum` read from a stack element; its `scriptnum_error` is caught as
`SCRIPT_ERR_UNKNOWN_ERROR`. -/
def scriptNum (vch : valtype) (nMaxNumSize : Nat := 4) : ScriptM σ Int :=
  match CScriptNum.ofVch vch (hasFlag flags SCRIPT_VERIFY_MINIMALDATA) nMaxNumSize with
  | some n => pure n
  | none => throw SCRIPT_ERR_UNKNOWN_ERROR

/-- The MINIMALIF test on the argument of `OP_IF`/`OP_NOTIF` in witness scripts. -/
def checkMinimalIf (vch : valtype) : ScriptM σ Unit :=
  failIf ((sigversion = .SIGVERSION_WITNESS_V0 ∨ sigversion = .SIGVERSION_WITNESS_V1) ∧
      hasFlag flags SCRIPT_VERIFY_MINIMALIF ∧ (vch.length > 1 ∨ (vch.length = 1 ∧ vch ≠ [1])))
    SCRIPT_ERR_MINIMALIF

/-- The signature loop of `OP_CHECKMULTISIG`: each signature is tried against the
next keys in order; it fails once more signatures are left than keys. -/
def checkMultiSigLoop (scriptCode : CScript) : List valtype → List valtype → ScriptM σ Bool
  | [], _ => pure true
  -- unreachable: the loop keeps no more signatures than keys
  | _ :: _, [] => pure false
  | vchSig :: sigs, vchPubKey :: keys => do
    liftExcept (CheckSignatureEncoding crypto vchSig flags)
    liftExcept (CheckPubKeyEncoding crypto vchPubKey flags sigversion)
    let fOk ← checker.CheckSig vchSig vchPubKey scriptCode sigversion
    let sigs' := if fOk then sigs else vchSig :: sigs
    if sigs'.length > keys.length then pure false
    else checkMultiSigLoop scriptCode sigs' keys

/-- The body of `OP_CHECKMULTISIG(VERIFY)` on the stack `stack`. -/
def execCheckMultiSig (fVerify : Bool) (st : ExecState) : ScriptM σ ExecState := do
  let some top := st.stack.head? | throw SCRIPT_ERR_INVALID_STACK_OPERATION
  let nKeysCount := CScriptNum.getint (← scriptNum flags top)
  failIf (nKeysCount < 0 ∨ nKeysCount > MAX_PUBKEYS_PER_MULTISIG) SCRIPT_ERR_PUBKEY_COUNT
  let nKeys := nKeysCount.toNat
  let nOpCount := st.nOpCount + nKeys
  failIf (nOpCount > MAX_OPS_PER_SCRIPT) SCRIPT_ERR_OP_COUNT
  let some vchSigsCount := st.stack[nKeys + 1]? | throw SCRIPT_ERR_INVALID_STACK_OPERATION
  let nSigsCount := CScriptNum.getint (← scriptNum flags vchSigsCount)
  failIf (nSigsCount < 0 ∨ nSigsCount > nKeysCount) SCRIPT_ERR_SIG_COUNT
  let nSigs := nSigsCount.toNat
  -- the count includes the extra element the operation consumes
  failIf (st.stack.length < nKeys + nSigs + 3) SCRIPT_ERR_INVALID_STACK_OPERATION
  let keys := (st.stack.drop 1).take nKeys
  let sigs := (st.stack.drop (nKeys + 2)).take nSigs
  -- the signatures are removed from the signed code of pre-segwit scripts
  let scriptCode := if sigversion = .SIGVERSION_BASE then
      sigs.foldl (fun sc vchSig => (FindAndDelete sc (pushData vchSig)).1) st.pbegincodehash
    else st.pbegincodehash
  let fSuccess ← checkMultiSigLoop flags checker crypto sigversion scriptCode sigs keys
  -- the clean-up loop fails at the first non-empty signature it pops
  failIf (!fSuccess && hasFlag flags SCRIPT_VERIFY_NULLFAIL && sigs.any (·.length ≠ 0))
    SCRIPT_ERR_SIG_NULLFAIL
  let dummy :: stack := st.stack.drop (nKeys + nSigs + 2) | throw SCRIPT_ERR_INVALID_STACK_OPERATION
  failIf (hasFlag flags SCRIPT_VERIFY_NULLDUMMY && dummy.length ≠ 0) SCRIPT_ERR_SIG_NULLDUMMY
  if fVerify then
    if fSuccess then pure { st with stack, nOpCount } else throw SCRIPT_ERR_CHECKMULTISIGVERIFY
  else pure { st with stack := (if fSuccess then vchTrue else vchFalse) :: stack, nOpCount }

/-- The body of `OP_CHECKSIG(VERIFY)`. -/
def execCheckSig (fVerify : Bool) (st : ExecState) : ScriptM σ ExecState := do
  let vchPubKey :: vchSig :: stack := st.stack | throw SCRIPT_ERR_INVALID_STACK_OPERATION
  let scriptCode := if sigversion = .SIGVERSION_BASE then
      (FindAndDelete st.pbegincodehash (pushData vchSig)).1
    else st.pbegincodehash
  liftExcept (CheckSignatureEncoding crypto vchSig flags)
  liftExcept (CheckPubKeyEncoding crypto vchPubKey flags sigversion)
  let fSuccess ← checker.CheckSig vchSig vchPubKey scriptCode sigversion
  failIf (!fSuccess && hasFlag flags SCRIPT_VERIFY_NULLFAIL && vchSig.length ≠ 0)
    SCRIPT_ERR_SIG_NULLFAIL
  if fVerify then
    if fSuccess then pure { st with stack } else throw SCRIPT_ERR_CHECKSIGVERIFY
  else pure { st with stack := (if fSuccess then vchTrue else vchFalse) :: stack }

/-- One case of the `switch` of `EvalScript`, entered when the branch executes or the
opcode is a conditional; `pc` is the script after the opcode. -/
def ExecOp (fExec : Bool) (op : Op) (pc : List UInt8) (st : ExecState) : ScriptM σ ExecState :=
  let push (vch : valtype) (stack : List valtype) : ScriptM σ ExecState :=
    pure { st with stack := vch :: stack }
  match op with
  | .pushValue n => push (CScriptNum.serialize n) st.stack
  | .nop => pure st
  | .checkLockTimeVerify =>
    -- not enabled: `OP_NOP2`
    if !hasFlag flags SCRIPT_VERIFY_CHECKLOCKTIMEVERIFY then pure st else do
      let some top := st.stack.head? | throw SCRIPT_ERR_INVALID_STACK_OPERATION
      let nLockTime ← scriptNum flags top 5
      failIf (nLockTime < 0) SCRIPT_ERR_NEGATIVE_LOCKTIME
      let fOk ← checker.CheckLockTime nLockTime
      failIf (!fOk) SCRIPT_ERR_UNSATISFIED_LOCKTIME
      pure st
  | .checkSequenceVerify =>
    -- not enabled: `OP_NOP3`
    if !hasFlag flags SCRIPT_VERIFY_CHECKSEQUENCEVERIFY then pure st else do
      let some top := st.stack.head? | throw SCRIPT_ERR_INVALID_STACK_OPERATION
      let nSequence ← scriptNum flags top 5
      failIf (nSequence < 0) SCRIPT_ERR_NEGATIVE_LOCKTIME
      -- `SEQUENCE_LOCKTIME_DISABLE_FLAG` set: a NOP
      if nSequence.toNat &&& 0x80000000 ≠ 0 then pure st else do
        let fOk ← checker.CheckSequence nSequence
        failIf (!fOk) SCRIPT_ERR_UNSATISFIED_LOCKTIME
        pure st
  | .nopUpgradable =>
    if hasFlag flags SCRIPT_VERIFY_DISCOURAGE_UPGRADABLE_NOPS then
      throw SCRIPT_ERR_DISCOURAGE_UPGRADABLE_NOPS
    else pure st
  | .if_ fNotIf =>
    if fExec then do
      let vch :: stack := st.stack | throw SCRIPT_ERR_UNBALANCED_CONDITIONAL
      checkMinimalIf flags sigversion vch
      let fValue := CastToBool vch != fNotIf
      pure { st with stack, vfExec := fValue :: st.vfExec }
    else pure { st with vfExec := false :: st.vfExec }
  | .else_ =>
    match st.vfExec with
    | [] => throw SCRIPT_ERR_UNBALANCED_CONDITIONAL
    | b :: vfExec => pure { st with vfExec := (!b) :: vfExec }
  | .endif =>
    match st.vfExec with
    | [] => throw SCRIPT_ERR_UNBALANCED_CONDITIONAL
    | _ :: vfExec => pure { st with vfExec }
  | .verify =>
    match st.stack with
    | [] => throw SCRIPT_ERR_INVALID_STACK_OPERATION
    | vch :: stack => if CastToBool vch then pure { st with stack } else throw SCRIPT_ERR_VERIFY
  | .return_ => throw SCRIPT_ERR_OP_RETURN
  | .toAltStack =>
    match st.stack with
    | [] => throw SCRIPT_ERR_INVALID_STACK_OPERATION
    | vch :: stack => pure { st with stack, altstack := vch :: st.altstack }
  | .fromAltStack =>
    match st.altstack with
    | [] => throw SCRIPT_ERR_INVALID_ALTSTACK_OPERATION
    | vch :: altstack => pure { st with stack := vch :: st.stack, altstack }
  | .drop2 =>
    match st.stack with
    | _ :: _ :: stack => pure { st with stack }
    | _ => throw SCRIPT_ERR_INVALID_STACK_OPERATION
  | .dup2 =>
    match st.stack with
    | x2 :: x1 :: stack => pure { st with stack := x2 :: x1 :: x2 :: x1 :: stack }
    | _ => throw SCRIPT_ERR_INVALID_STACK_OPERATION
  | .dup3 =>
    match st.stack with
    | x3 :: x2 :: x1 :: stack => pure { st with stack := x3 :: x2 :: x1 :: x3 :: x2 :: x1 :: stack }
    | _ => throw SCRIPT_ERR_INVALID_STACK_OPERATION
  | .over2 =>
    match st.stack with
    | x4 :: x3 :: x2 :: x1 :: stack =>
      pure { st with stack := x2 :: x1 :: x4 :: x3 :: x2 :: x1 :: stack }
    | _ => throw SCRIPT_ERR_INVALID_STACK_OPERATION
  | .rot2 =>
    match st.stack with
    | x6 :: x5 :: x4 :: x3 :: x2 :: x1 :: stack =>
      pure { st with stack := x2 :: x1 :: x6 :: x5 :: x4 :: x3 :: stack }
    | _ => throw SCRIPT_ERR_INVALID_STACK_OPERATION
  | .swap2 =>
    match st.stack with
    | x4 :: x3 :: x2 :: x1 :: stack => pure { st with stack := x2 :: x1 :: x4 :: x3 :: stack }
    | _ => throw SCRIPT_ERR_INVALID_STACK_OPERATION
  | .ifdup =>
    match st.stack with
    | [] => throw SCRIPT_ERR_INVALID_STACK_OPERATION
    | vch :: stack => if CastToBool vch then push vch (vch :: stack) else pure st
  | .depth => push (CScriptNum.serialize st.stack.length) st.stack
  | .drop =>
    match st.stack with
    | [] => throw SCRIPT_ERR_INVALID_STACK_OPERATION
    | _ :: stack => pure { st with stack }
  | .dup =>
    match st.stack with
    | [] => throw SCRIPT_ERR_INVALID_STACK_OPERATION
    | vch :: stack => push vch (vch :: stack)
  | .nip =>
    match st.stack with
    | x2 :: _ :: stack => pure { st with stack := x2 :: stack }
    | _ => throw SCRIPT_ERR_INVALID_STACK_OPERATION
  | .over =>
    match st.stack with
    | x2 :: x1 :: stack => push x1 (x2 :: x1 :: stack)
    | _ => throw SCRIPT_ERR_INVALID_STACK_OPERATION
  | .pickRoll fRoll =>
    match st.stack with
    | top :: stack :: stack' => do
      let stack := stack :: stack'
      let n := CScriptNum.getint (← scriptNum flags top)
      if h : n < 0 ∨ n ≥ stack.length then throw SCRIPT_ERR_INVALID_STACK_OPERATION
      else
        let vch := stack.get ⟨n.toNat, by omega⟩
        push vch (if fRoll then stack.eraseIdx n.toNat else stack)
    | _ => throw SCRIPT_ERR_INVALID_STACK_OPERATION
  | .rot =>
    match st.stack with
    | x3 :: x2 :: x1 :: stack => pure { st with stack := x1 :: x3 :: x2 :: stack }
    | _ => throw SCRIPT_ERR_INVALID_STACK_OPERATION
  | .swap =>
    match st.stack with
    | x2 :: x1 :: stack => pure { st with stack := x1 :: x2 :: stack }
    | _ => throw SCRIPT_ERR_INVALID_STACK_OPERATION
  | .tuck =>
    match st.stack with
    | x2 :: x1 :: stack => pure { st with stack := x2 :: x1 :: x2 :: stack }
    | _ => throw SCRIPT_ERR_INVALID_STACK_OPERATION
  | .size =>
    match st.stack with
    | [] => throw SCRIPT_ERR_INVALID_STACK_OPERATION
    | vch :: stack => push (CScriptNum.serialize vch.length) (vch :: stack)
  | .equal fVerify =>
    match st.stack with
    | vch2 :: vch1 :: stack =>
      let fEqual := vch1 == vch2
      if fVerify then
        if fEqual then pure { st with stack } else throw SCRIPT_ERR_EQUALVERIFY
      else push (if fEqual then vchTrue else vchFalse) stack
    | _ => throw SCRIPT_ERR_INVALID_STACK_OPERATION
  | .unary uop =>
    match st.stack with
    | [] => throw SCRIPT_ERR_INVALID_STACK_OPERATION
    | vch :: stack => do
      let bn ← scriptNum flags vch
      push (CScriptNum.serialize (uop.apply bn)) stack
  | .binary bop =>
    match st.stack with
    | vch2 :: vch1 :: stack => do
      let bn1 ← scriptNum flags vch1
      let bn2 ← scriptNum flags vch2
      let vch := CScriptNum.serialize (bop.apply bn1 bn2)
      if bop = .OP_NUMEQUALVERIFY then
        if CastToBool vch then pure { st with stack } else throw SCRIPT_ERR_NUMEQUALVERIFY
      else push vch stack
    | _ => throw SCRIPT_ERR_INVALID_STACK_OPERATION
  | .within =>
    match st.stack with
    | vch3 :: vch2 :: vch1 :: stack => do
      let bn1 ← scriptNum flags vch1
      let bn2 ← scriptNum flags vch2
      let bn3 ← scriptNum flags vch3
      push (if bn2 ≤ bn1 ∧ bn1 < bn3 then vchTrue else vchFalse) stack
    | _ => throw SCRIPT_ERR_INVALID_STACK_OPERATION
  | .hash hop =>
    match st.stack with
    | [] => throw SCRIPT_ERR_INVALID_STACK_OPERATION
    | vch :: stack => push (hop.apply crypto vch) stack
  | .codeSeparator => pure { st with pbegincodehash := pc }
  | .checkSig fVerify => execCheckSig flags checker crypto sigversion fVerify st
  | .checkMultiSig fVerify => execCheckMultiSig flags checker crypto sigversion fVerify st
  | .bad => throw SCRIPT_ERR_BAD_OPCODE

/-- One turn of the `while (pc < pend)` loop of `EvalScript`: read the instruction,
apply the limits every instruction is subject to, push or run it when its branch
executes, and check the stack size. -/
def EvalStep (opcode : opcodetype) (vchPushValue : valtype) (pc : List UInt8) (st : ExecState) :
    ScriptM σ ExecState := do
  let fExec := st.vfExec.all id
  failIf (vchPushValue.length > MAX_SCRIPT_ELEMENT_SIZE) SCRIPT_ERR_PUSH_SIZE
  -- `OP_RESERVED` does not count towards the opcode limit
  let nOpCount := if opcode > OP_16 then st.nOpCount + 1 else st.nOpCount
  failIf (opcode > OP_16 ∧ nOpCount > MAX_OPS_PER_SCRIPT) SCRIPT_ERR_OP_COUNT
  failIf (IsDisabledOpcode opcode) SCRIPT_ERR_DISABLED_OPCODE
  let st := { st with nOpCount }
  let st ← (
    if fExec ∧ opcode ≤ OP_PUSHDATA4 then do
      failIf (hasFlag flags SCRIPT_VERIFY_MINIMALDATA && !CheckMinimalPush vchPushValue opcode)
        SCRIPT_ERR_MINIMALDATA
      pure { st with stack := vchPushValue :: st.stack }
    else if fExec ∨ (OP_IF ≤ opcode ∧ opcode ≤ OP_ENDIF) then
      ExecOp flags checker crypto sigversion fExec (Op.ofOpcode opcode) pc st
    else pure st)
  failIf (st.stack.length + st.altstack.length > MAX_STACK_SIZE) SCRIPT_ERR_STACK_SIZE
  pure st

/-- The instruction loop of `EvalScript` from `pc`. -/
def EvalLoop (pc : List UInt8) (st : ExecState) : ScriptM σ ExecState :=
  if h : pc = [] then pure st else
    match hop : GetOp2 pc with
    | (false, _, _, _) => throw SCRIPT_ERR_BAD_OPCODE
    | (true, opcode, vchPushValue, pc') =>
      have : pc'.length < pc.length := by
        have h := GetOp2_length_lt h
        rw [hop] at h
        exact h
      do
        let st ← EvalStep flags checker crypto sigversion opcode vchPushValue pc' st
        EvalLoop pc' st
termination_by pc.length

/-- The loop ends at the end of the script. -/
theorem EvalLoop_nil (st : ExecState) :
    EvalLoop flags checker crypto sigversion [] st = pure st := by
  rw [EvalLoop, dif_pos rfl]

/-- A script whose next instruction cannot be read fails. -/
theorem EvalLoop_of_GetOp2_false {pc : List UInt8} (hpc : pc ≠ []) (hop : (GetOp2 pc).1 = false)
    (st : ExecState) :
    EvalLoop flags checker crypto sigversion pc st = throw SCRIPT_ERR_BAD_OPCODE := by
  rw [EvalLoop, dif_neg hpc]
  split
  next => rfl
  next heq =>
    rw [heq] at hop
    cases hop

/-- The loop runs the instruction it reads, then the rest of the script. -/
theorem EvalLoop_of_GetOp2 {pc pc' : List UInt8} {opcode : opcodetype} {vchPushValue : valtype}
    (hop : GetOp2 pc = (true, opcode, vchPushValue, pc')) (st : ExecState) :
    EvalLoop flags checker crypto sigversion pc st =
      EvalStep flags checker crypto sigversion opcode vchPushValue pc' st >>=
        fun st => EvalLoop flags checker crypto sigversion pc' st := by
  have hpc : pc ≠ [] := ne_nil_of_GetOp2 (by rw [hop])
  rw [EvalLoop, dif_neg hpc]
  split
  next heq =>
    rw [hop] at heq
    cases heq
  next heq =>
    rw [hop] at heq
    cases heq
    rfl

/-- `EvalScript`: the stack the script leaves, from the stack it is given. -/
def EvalScript (stack : List valtype) (script : CScript) : ScriptM σ (List valtype) := do
  failIf (script.length > MAX_SCRIPT_SIZE) SCRIPT_ERR_SCRIPT_SIZE
  let st ← EvalLoop flags checker crypto sigversion script ⟨stack, [], [], 0, script⟩
  failIf (!st.vfExec.isEmpty) SCRIPT_ERR_UNBALANCED_CONDITIONAL
  pure st.stack

end Exec

end BitcoinPQ

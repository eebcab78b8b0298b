import BitcoinPQ.Models.Wallet.KeyStore
import BitcoinPQ.Models.Script.Verify
import BitcoinPQ.Models.Script.SigHash

/-!
# Producing signatures

`script/sign.cpp`: `SignStep` solves one script with a signature creator, and
`ProduceSignature` follows a pay-to-script-hash redeem script and a witness program to
the script that is signed, then verifies the result with `STANDARD_SCRIPT_VERIFY_FLAGS`.
A transaction creator refuses to sign for witness version 0 with a key that is neither
compressed nor XMSS; the dummy creator of `IsSolvable` signs for every key.

`ProduceSignature` is modelled by the signature data it returns with `true`; the data
it leaves when it returns `false` is left out.
-/

namespace BitcoinPQ

/-- What signing calls outside this model: the script hashes, the interpreter's hash
functions and encoding checks, the public key of a private key, `CKey::Sign` of a
message, and the dummy XMSS signature of `xmss_create_dummy_signature`. -/
structure SignCrypto where
  hashes : ScriptHashes
  interp : ScriptCrypto
  GetPubKey : CKey → CPubKey
  Sign : CKey → List UInt8 → Option valtype
  xmss_dummy_signature : valtype

/-- `STANDARD_SCRIPT_VERIFY_FLAGS`. -/
def STANDARD_SCRIPT_VERIFY_FLAGS : UInt32 :=
  SCRIPT_VERIFY_P2SH ||| SCRIPT_VERIFY_DERSIG ||| SCRIPT_VERIFY_STRICTENC |||
    SCRIPT_VERIFY_MINIMALDATA ||| SCRIPT_VERIFY_NULLDUMMY ||| SCRIPT_VERIFY_DISCOURAGE_UPGRADABLE_NOPS |||
    SCRIPT_VERIFY_CLEANSTACK ||| SCRIPT_VERIFY_MINIMALIF ||| SCRIPT_VERIFY_NULLFAIL |||
    SCRIPT_VERIFY_CHECKLOCKTIMEVERIFY ||| SCRIPT_VERIFY_CHECKSEQUENCEVERIFY ||| SCRIPT_VERIFY_LOW_S |||
    SCRIPT_VERIFY_WITNESS ||| SCRIPT_VERIFY_DISCOURAGE_UPGRADABLE_WITNESS_PROGRAM |||
    SCRIPT_VERIFY_WITNESS_PUBKEYTYPE

/-- `SignatureData`. -/
structure SignatureData where
  scriptSig : CScript
  scriptWitness : CScriptWitness

/-- `BaseSignatureCreator`: the store it signs from, `CreateSig`, and the checker that
`ProduceSignature` verifies with, with the state that checker starts from. -/
structure BaseSignatureCreator (σ : Type) where
  keystore : CBasicKeyStore
  CreateSig : UInt160 → CScript → SigVersion → Option valtype
  checker : BaseSignatureChecker σ
  checkerState : σ

/-- `TransactionSignatureCreator::CreateSig`: the key's signature of the input's
signature message, followed by the hash type byte. -/
def TransactionSignatureCreator {σ : Type} (C : SignCrypto) (hash256 : List UInt8 → UInt256)
    (keystore : CBasicKeyStore) (txTo : CTransaction) (nIn : Fin txTo.vin.length) (amount : Int64)
    (nHashType : Int32) (checker : BaseSignatureChecker σ) (checkerState : σ) :
    BaseSignatureCreator σ where
  keystore := keystore
  CreateSig address scriptCode sigversion := do
    let key ← keystore.GetKey address
    -- signing with uncompressed keys is disabled in witness scripts
    if sigversion = .SIGVERSION_WITNESS_V0 ∧ key.is_key_segwit_useable = false then none
    let msg := Signature hash256 scriptCode txTo nIn nHashType amount sigversion none
    let vchSig ← C.Sign key msg
    pure (vchSig ++ [nHashType.toUInt32.toUInt8])
  checker := checker
  checkerState := checkerState

/-- `ecdsa_create_dummy_der_signature`: 72 bytes of a DER signature with `SIGHASH_ALL`. -/
def ecdsa_dummy_der_signature : valtype :=
  [0x30, 69, 0x02, 33, 0x01] ++ List.replicate 32 0 ++ [0x02, 32, 0x01] ++ List.replicate 31 0 ++ [1]

/-- `DummySignatureCreator`: a dummy signature for every key, and a checker that accepts
every signature and no lock time. -/
def DummySignatureCreator (C : SignCrypto) (keystore : CBasicKeyStore) : BaseSignatureCreator Unit where
  keystore := keystore
  CreateSig _ _ sigversion :=
    match sigversion with
    | .SIGVERSION_BASE | .SIGVERSION_WITNESS_V0 => some ecdsa_dummy_der_signature
    | .SIGVERSION_WITNESS_V1 => some (C.xmss_dummy_signature ++ [1])
  checker := BaseSignatureChecker.ofFunctions (fun _ _ _ _ => true) (fun _ => false) (fun _ => false)
  checkerState := ()

section Signing

variable {σ : Type} (C : SignCrypto) (creator : BaseSignatureCreator σ)

/-- The loop of `SignN`: a signature for each key in turn that the creator signs for,
until `nRequired` are made. -/
def signNLoop (scriptCode : CScript) (sigversion : SigVersion) (nRequired : Nat) :
    List valtype → List valtype → List valtype
  | sigs, [] => sigs
  | sigs, pubkey :: keys =>
    if sigs.length < nRequired then
      let keyID := (CPubKey.Set C.hashes.is_xmss_pubkey pubkey).GetID C.hashes
      match creator.CreateSig keyID scriptCode sigversion with
      | some vchSig => signNLoop scriptCode sigversion nRequired (sigs ++ [vchSig]) keys
      | none => signNLoop scriptCode sigversion nRequired sigs keys
    else sigs

/-- `SignN`: the signatures for the keys between the two small integers, and whether
there are as many as the first one asks for. -/
def SignN (multisigdata : List valtype) (scriptCode : CScript) (sigversion : SigVersion) :
    List valtype × Bool :=
  let nRequired := ((multisigdata.headD []).headD 0).toNat
  let sigs := signNLoop C creator scriptCode sigversion nRequired [] (multisigdata.drop 1).dropLast
  (sigs, sigs.length = nRequired)

/-- `SignStep`: the values that solve `scriptPubKey` and its type, `none` where it
returns false. -/
def SignStep (scriptPubKey : CScript) (sigversion : SigVersion) :
    Option (List valtype × txnouttype) := do
  let (whichTypeRet, vSolutions) ← Solver C.hashes.is_xmss_pubkey scriptPubKey
  match whichTypeRet with
  | .TX_PUBKEY =>
    let keyID := (CPubKey.Set C.hashes.is_xmss_pubkey (vSolutions.headD [])).GetID C.hashes
    let vchSig ← creator.CreateSig keyID scriptPubKey sigversion
    pure ([vchSig], whichTypeRet)
  | .TX_PUBKEYHASH =>
    let keyID ← UInt160.ofBytes (vSolutions.headD [])
    let vchSig ← creator.CreateSig keyID scriptPubKey sigversion
    -- the key `GetPubKey` finds, or the empty key when it finds none
    let vch := (creator.keystore.GetPubKey C.GetPubKey keyID).getD ⟨[]⟩
    pure ([vchSig, vch.vch], whichTypeRet)
  | .TX_SCRIPTHASH =>
    let h160 ← UInt160.ofBytes (vSolutions.headD [])
    let scriptRet ← creator.keystore.GetCScript h160
    pure ([scriptRet], whichTypeRet)
  | .TX_MULTISIG =>
    -- an empty element first, for the extra value `CHECKMULTISIG` pops
    let (sigs, ok) := SignN C creator vSolutions scriptPubKey sigversion
    if ok then pure ([] :: sigs, whichTypeRet) else none
  | .TX_WITNESS_V0_KEYHASH => pure ([vSolutions.headD []], whichTypeRet)
  | .TX_WITNESS_V0_SCRIPTHASH | .TX_WITNESS_V1_SCRIPTHASH =>
    let scriptRet ← creator.keystore.GetCScript (C.hashes.RIPEMD160 (vSolutions.headD []))
    pure ([scriptRet], whichTypeRet)
  | .TX_NONSTANDARD | .TX_NULL_DATA | .TX_WITNESS_UNKNOWN => none

/-- `PushAll`: each value as the push opcode that `VerifyScript` reads back. -/
def PushAll (values : List valtype) : CScript :=
  values.flatMap fun v =>
    if v.length = 0 then [OP_0]
    else if v.length = 1 ∧ 1 ≤ v.headD 0 ∧ v.headD 0 ≤ 16 then
      -- `EncodeOP_N` of a value from 1 to 16
      [(EncodeOP_N (v.headD 0).toNat).getD OP_0]
    else pushData v

/-- The types a witness script may not have. -/
def IsNestedType (subType : txnouttype) : Bool :=
  subType = .TX_SCRIPTHASH || subType = .TX_WITNESS_V0_SCRIPTHASH ||
    subType = .TX_WITNESS_V1_SCRIPTHASH || subType = .TX_WITNESS_V0_KEYHASH

/-- The witness part of `ProduceSignature`: the values left for the `scriptSig` and the
witness stack, from the values that solved a script of type `whichType`. -/
def signWitness (result : List valtype) (whichType : txnouttype) :
    Option (List valtype × List valtype) :=
  if whichType = .TX_WITNESS_V0_KEYHASH then do
    let witnessscript := [OP_DUP, OP_HASH160] ++ pushData (result.headD []) ++ [OP_EQUALVERIFY, OP_CHECKSIG]
    let (result, _) ← SignStep C creator witnessscript .SIGVERSION_WITNESS_V0
    pure ([], result)
  else if whichType = .TX_WITNESS_V0_SCRIPTHASH ∨ whichType = .TX_WITNESS_V1_SCRIPTHASH then do
    let witnessscript : CScript := result.headD []
    let sigversion := if whichType = .TX_WITNESS_V0_SCRIPTHASH then SigVersion.SIGVERSION_WITNESS_V0
      else SigVersion.SIGVERSION_WITNESS_V1
    let (result, subType) ← SignStep C creator witnessscript sigversion
    if IsNestedType subType then none
    else pure ([], result ++ [witnessscript])
  else pure (result, [])

/-- `ProduceSignature`: the signature data when it returns true. -/
def ProduceSignature (fromPubKey : CScript) : Option SignatureData := do
  let (result, whichType) ← SignStep C creator fromPubKey .SIGVERSION_BASE
  -- the redeem script of a pay-to-script-hash output is solved in its place
  let (result, whichType, P2SH) ← (
    if whichType = .TX_SCRIPTHASH then do
      let subscript : CScript := result.headD []
      let (result, whichType) ← SignStep C creator subscript .SIGVERSION_BASE
      if whichType = .TX_SCRIPTHASH then none else pure (result, whichType, some subscript)
    else pure (result, whichType, none))
  let (result, witnessStack) ← signWitness C creator result whichType
  let result := match P2SH with
    | some subscript => result ++ [subscript]
    | none => result
  let sigdata : SignatureData := ⟨PushAll result, ⟨witnessStack⟩⟩
  match ((VerifyScript STANDARD_SCRIPT_VERIFY_FLAGS creator.checker C.interp sigdata.scriptSig fromPubKey
      sigdata.scriptWitness).run.run' creator.checkerState : Except ScriptError Unit) with
  | .ok () => some sigdata
  | .error _ => none

end Signing

/-! ## Signing a witness script -/

section WitnessScripts

variable {σ : Type} (C : SignCrypto) (creator : BaseSignatureCreator σ)

/-- The version 0 script-hash program of a stored witness script is solved by that
script. -/
theorem SignStep_P2WSH {ws : CScript}
    (hget : creator.keystore.GetCScript (C.hashes.Hash160 ws) = some ws) (sigversion : SigVersion) :
    SignStep C creator (OP_0 :: pushData (WitnessV0ScriptHashOf C.hashes ws).data) sigversion =
      some ([ws], .TX_WITNESS_V0_SCRIPTHASH) := by
  rw [SignStep, Solver_witnessV0ScriptHash]
  simp only [Option.bind_eq_bind, Option.bind_some, List.headD_cons]
  -- the program is the SHA-256 of the script, so its RIPEMD-160 is the script's id
  rw [show C.hashes.RIPEMD160 (WitnessV0ScriptHashOf C.hashes ws).data = C.hashes.Hash160 ws from rfl, hget]
  rfl

/-- A pay-to-pubkey script is solved by the creator's signature for its key. -/
theorem SignStep_rawPubKey {pubkey : CPubKey}
    (hcheck : check_pubkey C.hashes.is_xmss_pubkey pubkey.vch = true) (hlo : 1 ≤ pubkey.vch.length)
    (hhi : pubkey.vch.length < OP_PUSHDATA1.toNat) (sigversion : SigVersion) :
    SignStep C creator (GetScriptForRawPubKey pubkey) sigversion =
      (creator.CreateSig (pubkey.GetID C.hashes) (GetScriptForRawPubKey pubkey) sigversion).map
        fun vchSig => ([vchSig], .TX_PUBKEY) := by
  rw [SignStep, GetScriptForRawPubKey, Solver_rawPubKey _ hcheck hlo hhi]
  simp only [Option.bind_eq_bind, Option.bind_some, List.headD_cons, CPubKey.Set_of_check hcheck]
  rw [Option.map_eq_bind]
  rfl

/-- When the witness script of a version 0 script-hash program cannot be signed, nothing
is produced. -/
theorem ProduceSignature_P2WSH_of_SignStep {ws : CScript}
    (hget : creator.keystore.GetCScript (C.hashes.Hash160 ws) = some ws)
    (hsign : SignStep C creator ws .SIGVERSION_WITNESS_V0 = none) :
    ProduceSignature C creator (OP_0 :: pushData (WitnessV0ScriptHashOf C.hashes ws).data) = none := by
  have hwitness : signWitness C creator [ws] .TX_WITNESS_V0_SCRIPTHASH = none := by
    rw [signWitness, if_neg (by decide), if_pos (Or.inl rfl)]
    simp only [List.headD_cons, if_pos, hsign]
    rfl
  rw [ProduceSignature, SignStep_P2WSH C creator hget]
  simp only [Option.bind_eq_bind, Option.bind_some, if_neg (show txnouttype.TX_WITNESS_V0_SCRIPTHASH ≠ .TX_SCRIPTHASH by decide),
    Option.pure_def, Option.bind_some, hwitness, Option.bind_none]

/-- A bare pay-to-pubkey script: what `ProduceSignature` returns is the creator's signature
for the key, pushed, and no witness. -/
theorem ProduceSignature_rawPubKey {pubkey : CPubKey}
    (hcheck : check_pubkey C.hashes.is_xmss_pubkey pubkey.vch = true) (hlo : 1 ≤ pubkey.vch.length)
    (hhi : pubkey.vch.length < OP_PUSHDATA1.toNat) {sigdata : SignatureData}
    (hsign : ProduceSignature C creator (GetScriptForRawPubKey pubkey) = some sigdata) :
    ∃ vchSig, creator.CreateSig (pubkey.GetID C.hashes) (GetScriptForRawPubKey pubkey) .SIGVERSION_BASE = some vchSig ∧
      sigdata = ⟨PushAll [vchSig], ⟨[]⟩⟩ := by
  rw [ProduceSignature, SignStep_rawPubKey C creator hcheck hlo hhi] at hsign
  cases hcs : creator.CreateSig (pubkey.GetID C.hashes) (GetScriptForRawPubKey pubkey) .SIGVERSION_BASE with
  | none => simp [hcs] at hsign
  | some vchSig =>
    refine ⟨vchSig, rfl, ?_⟩
    have hwitness : signWitness C creator [vchSig] .TX_PUBKEY = some ([vchSig], []) := by
      rw [signWitness, if_neg (by decide), if_neg (by decide)]
      rfl
    simp only [hcs, Option.map_some, Option.bind_eq_bind, Option.bind_some,
      if_neg (show txnouttype.TX_PUBKEY ≠ .TX_SCRIPTHASH by decide), Option.pure_def, hwitness] at hsign
    split at hsign
    · exact (Option.some.inj hsign).symm
    · cases hsign

end WitnessScripts

/-! ## An XMSS key in a bare pay-to-pubkey script -/

/-- An XMSS public key: the header `HDR_XMSS_V1` and 68 more bytes. -/
def xmssP2PKPubKey : CPubKey := ⟨HDR_XMSS_V1 :: List.replicate 68 0⟩

/-- The XMSS private key of `xmssP2PKPubKey`. -/
def xmssP2PKKey : CKey := ⟨List.replicate 4 0, false, false⟩

/-- Hashes and checks for the example: an XMSS key is its header and length, an ECDSA
signature encoding starts with `0x30` and has at most 73 bytes, an XMSS one has
`XMSS_DER_SIGNATURE_SIZE_MIN` to `XMSS_DER_SIGNATURE_SIZE_MAX` bytes, and the key signs
with a signature of the least XMSS size. -/
def xmssP2PKCrypto : SignCrypto where
  hashes := { zeroHashes with is_xmss_pubkey := fun d => decide (d.head? = some HDR_XMSS_V1 ∧ d.length = 69) }
  interp :=
    { ripemd160 := fun _ => List.replicate 20 0
      sha1 := fun _ => List.replicate 20 0
      sha256 := fun _ => List.replicate 32 0
      hash256_shake128 := fun _ => List.replicate 32 0
      is_xmss_pubkey := fun d => decide (d.head? = some HDR_XMSS_V1 ∧ d.length = 69)
      is_ecdsa_pubkey := fun _ => false
      is_ecdsa_compressed_pubkey := fun _ => false
      ecdsa_check_der_signature := fun vchSig => decide (vchSig.length ≤ 73 ∧ vchSig.head? = some 0x30)
      xmss_is_der_signature := fun vchSig => decide (2504 ≤ vchSig.length ∧ vchSig.length ≤ 10000)
      ecdsa_check_lower_S := fun _ => true }
  GetPubKey := fun _ => xmssP2PKPubKey
  Sign := fun _ _ => some (List.replicate 2504 0)
  xmss_dummy_signature := List.replicate 2504 0

/-- A key store that holds `xmssP2PKKey`. -/
def xmssP2PKKeyStore : CBasicKeyStore := ⟨fun _ => some xmssP2PKKey, fun _ => none, fun _ => none, fun _ => false⟩

/-- The dummy creator's `scriptSig` for a bare pay-to-pubkey script is the 72-byte ECDSA
dummy pushed, whatever the key. -/
theorem DummySignatureCreator_rawPubKey_scriptSig (C : SignCrypto) (keystore : CBasicKeyStore)
    {pubkey : CPubKey} (hcheck : check_pubkey C.hashes.is_xmss_pubkey pubkey.vch = true)
    (hlo : 1 ≤ pubkey.vch.length) (hhi : pubkey.vch.length < OP_PUSHDATA1.toNat) {sigdata : SignatureData}
    (hsign : ProduceSignature C (DummySignatureCreator C keystore) (GetScriptForRawPubKey pubkey) = some sigdata) :
    sigdata.scriptSig = PushAll [ecdsa_dummy_der_signature] ∧ sigdata.scriptSig.length = 73 := by
  obtain ⟨vchSig, hcs, rfl⟩ := ProduceSignature_rawPubKey C _ hcheck hlo hhi hsign
  -- at `SIGVERSION_BASE` the dummy creator signs with the ECDSA dummy
  cases hcs
  exact ⟨rfl, by decide⟩

/-- The dummy creator on the XMSS key of `xmssP2PKKeyStore`. -/
theorem DummySignatureCreator_rawPubKey_scriptSig_xmss :
    ∃ sigdata, ProduceSignature xmssP2PKCrypto (DummySignatureCreator xmssP2PKCrypto xmssP2PKKeyStore)
        (GetScriptForRawPubKey xmssP2PKPubKey) = some sigdata ∧
      sigdata.scriptSig = PushAll [ecdsa_dummy_der_signature] ∧ sigdata.scriptSig.length = 73 := by
  obtain ⟨sigdata, hsign⟩ := Option.isSome_iff_exists.mp (show (ProduceSignature xmssP2PKCrypto
    (DummySignatureCreator xmssP2PKCrypto xmssP2PKKeyStore) (GetScriptForRawPubKey xmssP2PKPubKey)).isSome by
      decide +kernel)
  exact ⟨sigdata, hsign,
    DummySignatureCreator_rawPubKey_scriptSig xmssP2PKCrypto xmssP2PKKeyStore (by decide) (by decide) (by decide) hsign⟩

/-- A transaction with one input, spending the pay-to-pubkey output. -/
def xmssP2PKTx : CTransaction := ⟨[default], [], 2, 0⟩

/-- The real signer for `xmssP2PKTx`, with a checker that accepts the key's signature. -/
def xmssP2PKCreator : BaseSignatureCreator Unit :=
  TransactionSignatureCreator xmssP2PKCrypto (fun _ => UInt256.zero) xmssP2PKKeyStore xmssP2PKTx ⟨0, by decide⟩ 0
    SIGHASH_ALL (BaseSignatureChecker.ofFunctions (fun _ _ _ _ => true) (fun _ => false) (fun _ => false)) ()

/-- An XMSS key in a bare pay-to-pubkey script is signed under `SIGVERSION_BASE`: the real
`scriptSig` carries the XMSS signature, 2508 bytes, the dummy one the ECDSA dummy, 73. -/
theorem ProduceSignature_xmss_rawPubKey_dummy_shorter :
    ((ProduceSignature xmssP2PKCrypto xmssP2PKCreator (GetScriptForRawPubKey xmssP2PKPubKey)).map
        fun sigdata => sigdata.scriptSig.length) = some 2508 ∧
      ((ProduceSignature xmssP2PKCrypto (DummySignatureCreator xmssP2PKCrypto xmssP2PKKeyStore)
        (GetScriptForRawPubKey xmssP2PKPubKey)).map fun sigdata => sigdata.scriptSig.length) = some 73 := by
  decide +kernel

/-- The transaction creator signs for witness version 0 only with a key that is
compressed or XMSS. -/
theorem TransactionSignatureCreator_CreateSig_witness_v0 {σ : Type} (C : SignCrypto)
    (hash256 : List UInt8 → UInt256) (keystore : CBasicKeyStore) (txTo : CTransaction)
    (nIn : Fin txTo.vin.length) (amount : Int64) (nHashType : Int32) (checker : BaseSignatureChecker σ)
    (checkerState : σ) {address : UInt160} {key : CKey} (hkey : keystore.GetKey address = some key)
    (huseable : key.is_key_segwit_useable = false) (scriptCode : CScript) :
    (TransactionSignatureCreator C hash256 keystore txTo nIn amount nHashType checker checkerState).CreateSig
      address scriptCode .SIGVERSION_WITNESS_V0 = none := by
  simp only [TransactionSignatureCreator, hkey, Option.bind_eq_bind, Option.bind_some, huseable,
    and_self, if_true, Option.bind_none]

/-- `IsSolvable`: whether the dummy creator produces a signature. -/
def IsSolvable (C : SignCrypto) (store : CBasicKeyStore) (script : CScript) : Bool :=
  (ProduceSignature C (DummySignatureCreator C store) script).isSome

end BitcoinPQ

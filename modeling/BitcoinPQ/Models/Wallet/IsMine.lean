import BitcoinPQ.Models.Wallet.Sign

/-!
# Which scripts the wallet owns

`script/ismine.cpp`: `IsMine` classifies a script by `Solver` and asks the key store
for its keys and redeem scripts, following pay-to-script-hash and witness programs to
the scripts they commit to. This fork replaced the 33-byte test on a pay-to-pubkey key
inside a witness script by `bpqcrypto::check_pubkey`, which accepts an uncompressed
ECDSA key.

The source recurses as deep as the key store's scripts lead it; the model counts the
levels with fuel, `none` when it runs out. Its `isBitcoin` flag is changed only when it comes in set,
which no modelled caller does, and is left out.
-/

namespace BitcoinPQ

/-- `isminetype`: the values `IsMine` returns (the others are filters over them). -/
inductive isminetype where
  | ISMINE_NO
  | ISMINE_WATCH_UNSOLVABLE
  | ISMINE_WATCH_SOLVABLE
  | ISMINE_SPENDABLE
  deriving DecidableEq, Repr

/-- `HaveKeys`: how many of the keys the store holds. -/
def HaveKeys (H : ScriptHashes) (pubkeys : List valtype) (keystore : CBasicKeyStore) : Nat :=
  (pubkeys.filter fun pubkey => keystore.HaveKey ((CPubKey.Set H.is_xmss_pubkey pubkey).GetID H)).length

/-- Whether the result of a nested `IsMine` is returned as it is. -/
def isMineAccepted (r : isminetype × Bool) : Bool :=
  r.1 = .ISMINE_SPENDABLE || r.1 = .ISMINE_WATCH_SOLVABLE || (r.1 = .ISMINE_NO && r.2)

section IsMine

variable (C : SignCrypto) (keystore : CBasicKeyStore)

/-- The end of `IsMine` after its switch: a watched script is solvable or not, any
other is not the wallet's. -/
def isMineWatched (scriptPubKey : CScript) (isInvalid : Bool) : isminetype × Bool :=
  if keystore.HaveWatchOnly scriptPubKey then
    (if IsSolvable C keystore scriptPubKey then .ISMINE_WATCH_SOLVABLE else .ISMINE_WATCH_UNSOLVABLE,
      isInvalid)
  else (.ISMINE_NO, isInvalid)

/-- After a nested `IsMine`: its result when accepted, the end after the switch with its
`isInvalid` otherwise. -/
def isMineNested (scriptPubKey : CScript) (r : isminetype × Bool) : isminetype × Bool :=
  if isMineAccepted r then r else isMineWatched C keystore scriptPubKey r.2

/-- What the switch of `IsMine` does at one level: return a result, or make its one
nested call, on a script with a signature version. -/
inductive IsMineStep where
  | result (r : isminetype × Bool)
  | nested (subscript : CScript) (sigversion : SigVersion)

/-- The switch of `IsMine` on the type `Solver` finds; `none` where an assertion of
`uint160` or `uint256` on a solution's size fails, which `Solver` never lets happen. -/
def isMineSwitch (scriptPubKey : CScript) (sigversion : SigVersion) : Option IsMineStep :=
  match Solver C.hashes.is_xmss_pubkey scriptPubKey with
  | none =>
    some (.result
      (if keystore.HaveWatchOnly scriptPubKey then .ISMINE_WATCH_UNSOLVABLE else .ISMINE_NO, false))
  | some (whichType, vSolutions) =>
    match whichType with
    | .TX_PUBKEY =>
      if sigversion ≠ .SIGVERSION_BASE ∧
          check_pubkey C.hashes.is_xmss_pubkey (vSolutions.headD []) = false then
        some (.result (.ISMINE_NO, true))
      else if keystore.HaveKey
          ((CPubKey.Set C.hashes.is_xmss_pubkey (vSolutions.headD [])).GetID C.hashes) then
        some (.result (.ISMINE_SPENDABLE, false))
      else some (.result (isMineWatched C keystore scriptPubKey false))
    | .TX_WITNESS_V0_KEYHASH =>
      -- a bare witness program only with its pay-to-script-hash form known
      if !keystore.HaveCScript (C.hashes.Hash160 (OP_0 :: pushData (vSolutions.headD []))) then
        some (.result (isMineWatched C keystore scriptPubKey false))
      else do
        let keyID ← UInt160.ofBytes (vSolutions.headD [])
        let script ← GetScriptForDestination (.CKeyID keyID)
        pure (.nested script .SIGVERSION_WITNESS_V0)
    | .TX_PUBKEYHASH => do
      let keyID ← UInt160.ofBytes (vSolutions.headD [])
      let uncompressed := match keystore.GetPubKey C.GetPubKey keyID with
        | some pubkey => !is_key_segwit_useable pubkey
        | none => false
      if sigversion ≠ .SIGVERSION_BASE ∧ uncompressed = true then pure (.result (.ISMINE_NO, true))
      else if keystore.HaveKey keyID then pure (.result (.ISMINE_SPENDABLE, false))
      else pure (.result (isMineWatched C keystore scriptPubKey false))
    | .TX_SCRIPTHASH => do
      let scriptID ← UInt160.ofBytes (vSolutions.headD [])
      match keystore.GetCScript scriptID with
      | none => pure (.result (isMineWatched C keystore scriptPubKey false))
      | some subscript => pure (.nested subscript .SIGVERSION_BASE)
    | .TX_WITNESS_V0_SCRIPTHASH => do
      let dest ← UInt256.ofBytes (vSolutions.headD [])
      let script ← GetScriptForDestination (.WitnessV0ScriptHash dest)
      if !keystore.HaveCScript (C.hashes.Hash160 script) then
        pure (.result (isMineWatched C keystore scriptPubKey false))
      else match keystore.GetCScript (CScriptID.ofWitnessHash C.hashes dest) with
        | none => pure (.result (isMineWatched C keystore scriptPubKey false))
        | some subscript => pure (.nested subscript .SIGVERSION_WITNESS_V0)
    | .TX_WITNESS_V1_SCRIPTHASH => do
      let dest ← UInt256.ofBytes (vSolutions.headD [])
      let script ← GetScriptForDestination (.WitnessV1ScriptHash dest)
      if !keystore.HaveCScript (C.hashes.Hash160v1 script) then
        pure (.result (isMineWatched C keystore scriptPubKey false))
      else match keystore.GetCScript (CScriptID.ofWitnessHash C.hashes dest) with
        | none => pure (.result (isMineWatched C keystore scriptPubKey false))
        | some subscript => pure (.nested subscript .SIGVERSION_WITNESS_V1)
    | .TX_MULTISIG =>
      -- only when the wallet holds every key
      let keys := (vSolutions.drop 1).dropLast
      if sigversion ≠ .SIGVERSION_BASE ∧ keys.any (·.length ≠ 33) then some (.result (.ISMINE_NO, true))
      else if HaveKeys C.hashes keys keystore = keys.length then some (.result (.ISMINE_SPENDABLE, false))
      else some (.result (isMineWatched C keystore scriptPubKey false))
    | .TX_NONSTANDARD | .TX_NULL_DATA | .TX_WITNESS_UNKNOWN =>
      some (.result (isMineWatched C keystore scriptPubKey false))

/-- `IsMine(keystore, scriptPubKey, isInvalid, sigversion)`: the result and `isInvalid`,
with `fuel` levels of nesting. -/
def IsMine : Nat → CScript → SigVersion → Option (isminetype × Bool)
  | 0, _, _ => none
  | fuel + 1, scriptPubKey, sigversion =>
    (isMineSwitch C keystore scriptPubKey sigversion).bind fun
      | .result r => some r
      | .nested subscript sv => (IsMine fuel subscript sv).map (isMineNested C keystore scriptPubKey)

/-! ## One level of `IsMine` -/

/-- A switch that returns decides `IsMine` at one level. -/
theorem IsMine_of_result {scriptPubKey : CScript} {sigversion : SigVersion} {r : isminetype × Bool}
    (h : isMineSwitch C keystore scriptPubKey sigversion = some (.result r)) (fuel : Nat) :
    IsMine C keystore (fuel + 1) scriptPubKey sigversion = some r := by
  rw [IsMine, h, Option.bind_some]

/-- A switch that nests makes `IsMine` the nested result, or the end after the switch. -/
theorem IsMine_of_nested {scriptPubKey subscript : CScript} {sigversion sv : SigVersion}
    (h : isMineSwitch C keystore scriptPubKey sigversion = some (.nested subscript sv)) (fuel : Nat) :
    IsMine C keystore (fuel + 1) scriptPubKey sigversion =
      (IsMine C keystore fuel subscript sv).map (isMineNested C keystore scriptPubKey) := by
  rw [IsMine, h, Option.bind_some]

/-- A spendable nested result is returned as it is. -/
@[simp] theorem isMineNested_spendable (scriptPubKey : CScript) (isInvalid : Bool) :
    isMineNested C keystore scriptPubKey (.ISMINE_SPENDABLE, isInvalid) = (.ISMINE_SPENDABLE, isInvalid) := by
  simp [isMineNested, isMineAccepted]

/-- A pay-to-pubkey script of a held key that `check_pubkey` accepts is spendable at
every signature version. -/
theorem isMineSwitch_rawPubKey {pubkey : CPubKey}
    (hcheck : check_pubkey C.hashes.is_xmss_pubkey pubkey.vch = true) (hlo : 1 ≤ pubkey.vch.length)
    (hhi : pubkey.vch.length < OP_PUSHDATA1.toNat) (hkey : keystore.HaveKey (pubkey.GetID C.hashes) = true)
    (sigversion : SigVersion) :
    isMineSwitch C keystore (GetScriptForRawPubKey pubkey) sigversion =
      some (.result (.ISMINE_SPENDABLE, false)) := by
  rw [isMineSwitch, GetScriptForRawPubKey, Solver_rawPubKey _ hcheck hlo hhi]
  simp only [List.headD_cons, hcheck, Bool.true_eq_false, and_false, if_false, CPubKey.Set_of_check hcheck]
  exact if_pos hkey

/-- The version 0 script-hash program of a witness script is followed into the script
when the store holds both. -/
theorem isMineSwitch_P2WSH {ws : CScript}
    (hprogram : keystore.HaveCScript
      (C.hashes.Hash160 (OP_0 :: pushData (WitnessV0ScriptHashOf C.hashes ws).data)) = true)
    (hget : keystore.GetCScript (C.hashes.Hash160 ws) = some ws) (sigversion : SigVersion) :
    isMineSwitch C keystore (OP_0 :: pushData (WitnessV0ScriptHashOf C.hashes ws).data) sigversion =
      some (.nested ws .SIGVERSION_WITNESS_V0) := by
  rw [isMineSwitch, Solver_witnessV0ScriptHash]
  simp only [List.headD_cons, UInt256.ofBytes_data, GetScriptForDestination, Option.bind_eq_bind,
    Option.bind_some, hprogram, Bool.not_true, Bool.false_eq_true, if_false, CScriptID_ofWitnessHash_v0,
    hget]
  rfl

end IsMine

/-! ## A spendable script that cannot be signed -/

/-- An uncompressed ECDSA key in a pay-to-pubkey witness script: after the key, the
witness script and its version 0 script-hash program are added to any store, `IsMine`
finds the program spendable, while the transaction creator refuses to sign the witness
script with the key, so that `ProduceSignature` fails. -/
theorem IsMine_spendable_P2WSH_unsignable (C : SignCrypto) (ks : CBasicKeyStore) {key : CKey}
    {pubkey : CPubKey} (hkey : key.is_key_segwit_useable = false)
    (hlen : pubkey.vch.length = ECDSA_PUBLIC_KEY_SIZE) (hhead : pubkey.vch.head? = some 4)
    {ws p2wsh : CScript} (hws : GetScriptForRawPubKey pubkey = ws)
    (hp2wsh : GetScriptForDestination (.WitnessV0ScriptHash (WitnessV0ScriptHashOf C.hashes ws)) = some p2wsh)
    (hid : C.hashes.Hash160 ws ≠ C.hashes.Hash160 p2wsh)
    (hash256 : List UInt8 → UInt256) (txTo : CTransaction) (nIn : Fin txTo.vin.length) (amount : Int64)
    {σ : Type} (checker : BaseSignatureChecker σ) (checkerState : σ) :
    ∃ ks', (((ks.AddKeyPubKey C.hashes key pubkey).AddCScript C.hashes ws 0).bind
        fun r => r.2.AddCScript C.hashes p2wsh 0) = some (true, ks') ∧
      (∀ fuel, 2 ≤ fuel → IsMine C ks' fuel p2wsh .SIGVERSION_BASE = some (.ISMINE_SPENDABLE, false)) ∧
      ProduceSignature C
        (TransactionSignatureCreator C hash256 ks' txTo nIn amount SIGHASH_ALL checker checkerState)
        p2wsh = none := by
  -- the key is neither XMSS nor compressed: adding it learns no script
  have hpub : is_key_segwit_useable pubkey = false := by
    simp [is_key_segwit_useable, CPubKey.IsXMSS, CPubKey.IsCompressed, CPubKey.size, hhead, hlen,
      HDR_XMSS_V1, ECDSA_PUBLIC_KEY_SIZE, ECDSA_COMPRESSED_PUBLIC_KEY_SIZE]
  have hcheck := check_pubkey_uncompressed C.hashes.is_xmss_pubkey hlen hhead
  have hlo : 1 ≤ pubkey.vch.length := by
    rw [hlen]
    decide
  have hhi : pubkey.vch.length < OP_PUSHDATA1.toNat := by
    rw [hlen]
    decide
  have hprogram : OP_0 :: pushData (WitnessV0ScriptHashOf C.hashes ws).data = p2wsh := Option.some.inj hp2wsh
  subst hws hprogram
  -- both scripts are far below `MAX_SCRIPT_ELEMENT_SIZE`
  have hwsSize : (GetScriptForRawPubKey pubkey).length ≤ MAX_SCRIPT_ELEMENT_SIZE := by
    rw [GetScriptForRawPubKey, List.length_append, pushData_of_lt hhi, List.length_cons, hlen]
    decide
  have hhashSize := (WitnessV0ScriptHashOf C.hashes (GetScriptForRawPubKey pubkey)).size_eq
  have hp2wshSize : (OP_0 :: pushData (WitnessV0ScriptHashOf C.hashes (GetScriptForRawPubKey pubkey)).data).length ≤
      MAX_SCRIPT_ELEMENT_SIZE := by
    rw [List.length_cons, pushData_of_lt (by rw [hhashSize]; decide), List.length_cons, hhashSize]
    decide
  set ws := GetScriptForRawPubKey pubkey
  set p2wsh := OP_0 :: pushData (WitnessV0ScriptHashOf C.hashes ws).data
  set ks' := ((ks.AddKeyPubKey C.hashes key pubkey).setScript (C.hashes.Hash160 ws) ws).setScript
    (C.hashes.Hash160 p2wsh) p2wsh
  have hget : ks'.GetCScript (C.hashes.Hash160 ws) = some ws := by
    rw [CBasicKeyStore.GetCScript_setScript_of_ne _ hid, CBasicKeyStore.GetCScript_setScript_self]
  have hhave : ks'.HaveCScript (C.hashes.Hash160 p2wsh) = true := CBasicKeyStore.HaveCScript_setScript_self _ _ _
  have hgetKey : ks'.GetKey (pubkey.GetID C.hashes) = some key := by
    simp only [ks', CBasicKeyStore.GetKey_setScript, CBasicKeyStore.AddKeyPubKey_of_not_useable _ _ _ hpub]
    simp [CBasicKeyStore.GetKey]
  have hhaveKey : ks'.HaveKey (pubkey.GetID C.hashes) = true := by
    rw [CBasicKeyStore.HaveKey, ← CBasicKeyStore.GetKey, hgetKey]
    rfl
  refine ⟨ks', ?_, ?_, ?_⟩
  case refine_1 =>
    rw [CBasicKeyStore.AddCScript_of_le _ _ hwsSize (CScriptID_zero _ _), Option.bind_some,
      CBasicKeyStore.AddCScript_of_le _ _ hp2wshSize (CScriptID_zero _ _)]
  case refine_2 =>
    -- two levels: the program nests into the witness script, whose key the store holds
    intro fuel hfuel
    obtain ⟨n, rfl⟩ : ∃ n, fuel = n + 1 + 1 := ⟨fuel - 2, by omega⟩
    rw [IsMine_of_nested C ks' (isMineSwitch_P2WSH C ks' hhave hget _),
      IsMine_of_result C ks' (isMineSwitch_rawPubKey C ks' hcheck hlo hhi hhaveKey _), Option.map_some,
      isMineNested_spendable]
  case refine_3 =>
    apply ProduceSignature_P2WSH_of_SignStep C _ hget
    rw [SignStep_rawPubKey C _ hcheck hlo hhi,
      TransactionSignatureCreator_CreateSig_witness_v0 C hash256 ks' txTo nIn amount SIGHASH_ALL checker
        checkerState hgetKey hkey, Option.map_none]

/-- Hash functions that keep the first bytes of their input, SHAKE-128 behind a marker
byte. -/
def prefixHashes : ScriptHashes where
  is_xmss_pubkey := fun _ => false
  RIPEMD160 := fun v => ⟨(v ++ List.replicate 20 0).take 20, by simp⟩
  SHA256 := fun v => ⟨(v ++ List.replicate 32 0).take 32, by simp⟩
  hash256_shake128 := fun v => ⟨(1 :: v ++ List.replicate 31 0).take 32, by simp⟩

/-- Signing primitives over the prefix hashes; `CKey::Sign` never matters here. -/
def prefixCrypto : SignCrypto :=
  ⟨prefixHashes, ⟨id, id, id, id, fun _ => false, fun _ => true, fun _ => true, fun _ => true,
    fun _ => true, fun _ => true⟩, fun _ => ⟨[]⟩, fun _ _ => none, []⟩

/-- A transaction with one input. -/
def oneInputTx : CTransaction := ⟨[⟨⟨UInt256.zero, 0⟩, [], SEQUENCE_FINAL, ⟨[]⟩⟩], [], 2, 0⟩

/-- The empty store given the uncompressed key `04 00..00`, its pay-to-pubkey script and the
version 0 script-hash program of that script: spendable, not signed. -/
theorem uncompressed_P2WSH_spendable_unsignable :
    prefixHashes.Hash160 (GetScriptForRawPubKey ⟨4 :: List.replicate 64 0⟩) ≠
        prefixHashes.Hash160 (OP_0 :: pushData
          (WitnessV0ScriptHashOf prefixHashes (GetScriptForRawPubKey ⟨4 :: List.replicate 64 0⟩)).data) ∧
      ∃ ks', (((CBasicKeyStore.empty.AddKeyPubKey prefixHashes ⟨[], true, false⟩ ⟨4 :: List.replicate 64 0⟩).AddCScript
          prefixHashes (GetScriptForRawPubKey ⟨4 :: List.replicate 64 0⟩) 0).bind fun r =>
            r.2.AddCScript prefixHashes (OP_0 :: pushData
              (WitnessV0ScriptHashOf prefixHashes (GetScriptForRawPubKey ⟨4 :: List.replicate 64 0⟩)).data) 0) =
          some (true, ks') ∧
        (∀ fuel, 2 ≤ fuel → IsMine prefixCrypto ks' fuel (OP_0 :: pushData
          (WitnessV0ScriptHashOf prefixHashes (GetScriptForRawPubKey ⟨4 :: List.replicate 64 0⟩)).data)
            .SIGVERSION_BASE = some (.ISMINE_SPENDABLE, false)) ∧
        ProduceSignature prefixCrypto
          (TransactionSignatureCreator prefixCrypto (fun _ => UInt256.zero) ks' oneInputTx ⟨0, by decide⟩ 0
            SIGHASH_ALL (BaseSignatureChecker.ofFunctions (fun _ _ _ _ => true) (fun _ => false) (fun _ => false)) ())
          (OP_0 :: pushData
            (WitnessV0ScriptHashOf prefixHashes (GetScriptForRawPubKey ⟨4 :: List.replicate 64 0⟩)).data) =
          none := by
  have hid : prefixHashes.Hash160 (GetScriptForRawPubKey ⟨4 :: List.replicate 64 0⟩) ≠
      prefixHashes.Hash160 (OP_0 :: pushData
        (WitnessV0ScriptHashOf prefixHashes (GetScriptForRawPubKey ⟨4 :: List.replicate 64 0⟩)).data) := by
    decide
  exact ⟨hid, IsMine_spendable_P2WSH_unsignable prefixCrypto CBasicKeyStore.empty (by decide) (by decide)
    (by decide) rfl rfl hid (fun _ => UInt256.zero) oneInputTx ⟨0, by decide⟩ 0
    (BaseSignatureChecker.ofFunctions (fun _ _ _ _ => true) (fun _ => false) (fun _ => false)) ()⟩

end BitcoinPQ

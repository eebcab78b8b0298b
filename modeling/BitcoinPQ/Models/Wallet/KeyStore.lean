import BitcoinPQ.Models.Script.Standard

/-!
# The basic key store

`keystore.cpp` and the script ids of `script/standard.cpp`: private keys and watched
public keys by key id, redeem scripts by script id, and watch-only scripts. A script
id depends on a script version: RIPEMD-160 of SHA-256 for version 0, RIPEMD-160 of
SHAKE-128 for version 1, and version 1 for a negative one. Adding a key learns the
scripts that pay it through a witness program: the version 1 program of its
pay-to-pubkey script for an XMSS key, the version 0 key-hash program for a compressed
ECDSA key.

The maps are functions to `Option`; the locks and the encrypted key store are left out.
-/

namespace BitcoinPQ

/-- `CKey`: the key material, whether it is an ECDSA (legacy) key, and whether its
public key is compressed. -/
structure CKey where
  keydata : List UInt8
  fLegacy : Bool
  fCompressed : Bool
  deriving DecidableEq

namespace CKey

def IsCompressed (k : CKey) : Bool := k.fCompressed

def IsXMSS (k : CKey) : Bool := !k.fLegacy

/-- `is_key_segwit_useable(const CKey&)`. -/
def is_key_segwit_useable (k : CKey) : Bool := k.IsXMSS || k.IsCompressed

end CKey

/-- `is_key_segwit_useable(const CPubKey&)`. -/
def is_key_segwit_useable (pubkey : CPubKey) : Bool := pubkey.IsXMSS || pubkey.IsCompressed

/-- `Hash160v1`: RIPEMD-160 of SHAKE-128. -/
def ScriptHashes.Hash160v1 (H : ScriptHashes) (vch : List UInt8) : UInt160 :=
  H.RIPEMD160 (H.hash256_shake128 vch).data

/-- `DEFAULT_SCRIPT_VERSION`. -/
def DEFAULT_SCRIPT_VERSION : Int := 1

/-- `CScriptID(const CScript&, int version)`: `none` where its `assert(false)` stops a
version other than 0 and 1. -/
def CScriptID (H : ScriptHashes) (script : CScript) (version : Int) : Option UInt160 :=
  let version := if version < 0 then DEFAULT_SCRIPT_VERSION else version
  if version = 0 then some (H.Hash160 script)
  else if version = 1 then some (H.Hash160v1 script)
  else none

/-- `CScriptID(const WitnessV0ScriptHash&)` and `CScriptID(const WitnessV1ScriptHash&)`. -/
def CScriptID.ofWitnessHash (H : ScriptHashes) (hash : UInt256) : UInt160 :=
  H.RIPEMD160 hash.data

/-- `WitnessV0ScriptHash(const CScript&)`. -/
def WitnessV0ScriptHashOf (H : ScriptHashes) (script : CScript) : UInt256 := H.SHA256 script

/-- `WitnessV1ScriptHash(const CScript&)`. -/
def WitnessV1ScriptHashOf (H : ScriptHashes) (script : CScript) : UInt256 :=
  H.hash256_shake128 script

/-- `GetScriptForRawPubKey`. -/
def GetScriptForRawPubKey (pubKey : CPubKey) : CScript := pushData pubKey.vch ++ [OP_CHECKSIG]

/-- `ExtractPubKey`: the key of a pay-to-pubkey script, when `CPubKey` takes it. -/
def ExtractPubKey (H : ScriptHashes) (scriptPubKey : CScript) : Option CPubKey :=
  match Solver H.is_xmss_pubkey scriptPubKey with
  | some (.TX_PUBKEY, vSolutions) =>
    let pubKey := CPubKey.Set H.is_xmss_pubkey (vSolutions.headD [])
    if pubKey.IsValid then some pubKey else none
  | _ => none

@[simp] theorem CScriptID_zero (H : ScriptHashes) (script : CScript) :
    CScriptID H script 0 = some (H.Hash160 script) := rfl

@[simp] theorem CScriptID_one (H : ScriptHashes) (script : CScript) :
    CScriptID H script 1 = some (H.Hash160v1 script) := rfl

@[simp] theorem CScriptID_neg_one (H : ScriptHashes) (script : CScript) :
    CScriptID H script (-1) = some (H.Hash160v1 script) := rfl

/-- The witness script hash of version 0 names the script by its version 0 id. -/
theorem CScriptID_ofWitnessHash_v0 (H : ScriptHashes) (script : CScript) :
    CScriptID.ofWitnessHash H (WitnessV0ScriptHashOf H script) = H.Hash160 script := rfl

/-- `CBasicKeyStore`. -/
structure CBasicKeyStore where
  mapKeys : UInt160 → Option CKey
  mapWatchKeys : UInt160 → Option CPubKey
  mapScripts : UInt160 → Option CScript
  setWatchOnly : CScript → Bool

namespace CBasicKeyStore

/-- The store a wallet starts from. -/
def empty : CBasicKeyStore := ⟨fun _ => none, fun _ => none, fun _ => none, fun _ => false⟩

variable (H : ScriptHashes) (ks : CBasicKeyStore)

def HaveKey (address : UInt160) : Bool := (ks.mapKeys address).isSome

def GetKey (address : UInt160) : Option CKey := ks.mapKeys address

def HaveCScript (hash : UInt160) : Bool := (ks.mapScripts hash).isSome

def GetCScript (hash : UInt160) : Option CScript := ks.mapScripts hash

def HaveWatchOnly (dest : CScript) : Bool := ks.setWatchOnly dest

/-- `CBasicKeyStore::GetPubKey`: the public key of a held key, else a watched one.
`GetPubKey` of the key is a parameter. -/
def GetPubKey (GetPubKeyOf : CKey → CPubKey) (address : UInt160) : Option CPubKey :=
  match ks.GetKey address with
  | some key => some (GetPubKeyOf key)
  | none => ks.mapWatchKeys address

/-- The store with `script` at `id` in `mapScripts`. -/
def setScript (id : UInt160) (script : CScript) : CBasicKeyStore :=
  { ks with mapScripts := Function.update ks.mapScripts id (some script) }

/-- `ImplicitlyLearnRelatedKeyScripts`. Its assertion that the key is held or watched
holds at both of its calls, which add the key first. -/
def ImplicitlyLearnRelatedKeyScripts (pubkey : CPubKey) : CBasicKeyStore :=
  if pubkey.IsXMSS then
    let reedemscript := GetScriptForRawPubKey pubkey
    -- `GetScriptForDestination` builds every destination but an unknown witness
    let script :=
      (GetScriptForDestination (.WitnessV1ScriptHash (WitnessV1ScriptHashOf H reedemscript))).getD []
    (ks.setScript (H.Hash160v1 reedemscript) reedemscript).setScript (H.Hash160v1 script) script
  else if is_key_segwit_useable pubkey then
    let script := (GetScriptForDestination (.WitnessV0KeyHash (pubkey.GetID H))).getD []
    ks.setScript (H.Hash160 script) script
  else ks

/-- `CBasicKeyStore::AddKeyPubKey`. -/
def AddKeyPubKey (key : CKey) (pubkey : CPubKey) : CBasicKeyStore :=
  ImplicitlyLearnRelatedKeyScripts H
    { ks with mapKeys := Function.update ks.mapKeys (pubkey.GetID H) (some key) } pubkey

/-- `CBasicKeyStore::AddCScript`: whether the script was added, and the store; `none`
where `CScriptID` stops at its assertion. -/
def AddCScript (redeemScript : CScript) (version : Int) : Option (Bool × CBasicKeyStore) :=
  if redeemScript.length > MAX_SCRIPT_ELEMENT_SIZE then some (false, ks)
  else (CScriptID H redeemScript version).map fun id => (true, ks.setScript id redeemScript)

/-- `CBasicKeyStore::AddWatchOnly`, which does not read its version. -/
def AddWatchOnly (dest : CScript) : CBasicKeyStore :=
  let ks := { ks with setWatchOnly := Function.update ks.setWatchOnly dest true }
  match ExtractPubKey H dest with
  | some pubKey =>
    ImplicitlyLearnRelatedKeyScripts H
      { ks with mapWatchKeys := Function.update ks.mapWatchKeys (pubKey.GetID H) (some pubKey) } pubKey
  | none => ks

/-- `CBasicKeyStore::RemoveWatchOnly`: the scripts it taught stay. -/
def RemoveWatchOnly (dest : CScript) : CBasicKeyStore :=
  let ks := { ks with setWatchOnly := Function.update ks.setWatchOnly dest false }
  match ExtractPubKey H dest with
  | some pubKey => { ks with mapWatchKeys := Function.update ks.mapWatchKeys (pubKey.GetID H) none }
  | none => ks

@[simp] theorem setScript_mapScripts (id : UInt160) (script : CScript) :
    (ks.setScript id script).mapScripts = Function.update ks.mapScripts id (some script) := rfl

@[simp] theorem setScript_mapKeys (id : UInt160) (script : CScript) :
    (ks.setScript id script).mapKeys = ks.mapKeys := rfl

@[simp] theorem setScript_mapWatchKeys (id : UInt160) (script : CScript) :
    (ks.setScript id script).mapWatchKeys = ks.mapWatchKeys := rfl

@[simp] theorem setScript_setWatchOnly (id : UInt160) (script : CScript) :
    (ks.setScript id script).setWatchOnly = ks.setWatchOnly := rfl

@[simp] theorem GetCScript_setScript_self (id : UInt160) (script : CScript) :
    (ks.setScript id script).GetCScript id = some script := by
  simp [GetCScript]

theorem GetCScript_setScript_of_ne {id id' : UInt160} (h : id' ≠ id) (script : CScript) :
    (ks.setScript id script).GetCScript id' = ks.GetCScript id' := by
  simp [GetCScript, Function.update_of_ne h]

@[simp] theorem HaveCScript_setScript_self (id : UInt160) (script : CScript) :
    (ks.setScript id script).HaveCScript id = true := by
  simp [HaveCScript]

@[simp] theorem GetKey_setScript (id : UInt160) (script : CScript) :
    (ks.setScript id script).GetKey = ks.GetKey := rfl

/-- Learning the scripts of a key that is neither XMSS nor compressed does nothing. -/
theorem ImplicitlyLearnRelatedKeyScripts_of_not_useable {pubkey : CPubKey}
    (h : is_key_segwit_useable pubkey = false) :
    ImplicitlyLearnRelatedKeyScripts H ks pubkey = ks := by
  have hx : pubkey.IsXMSS = false := by
    simp only [is_key_segwit_useable, Bool.or_eq_false_iff] at h
    exact h.1
  rw [ImplicitlyLearnRelatedKeyScripts, if_neg (by rw [hx]; decide), if_neg (by rw [h]; decide)]

/-- Adding a key that is neither XMSS nor compressed stores the key and nothing else. -/
theorem AddKeyPubKey_of_not_useable (key : CKey) {pubkey : CPubKey}
    (h : is_key_segwit_useable pubkey = false) :
    ks.AddKeyPubKey H key pubkey =
      { ks with mapKeys := Function.update ks.mapKeys (pubkey.GetID H) (some key) } := by
  rw [AddKeyPubKey, ImplicitlyLearnRelatedKeyScripts_of_not_useable H _ h]

/-- A script of at most `MAX_SCRIPT_ELEMENT_SIZE` bytes is added at its id. -/
theorem AddCScript_of_le {redeemScript : CScript} (hsize : redeemScript.length ≤ MAX_SCRIPT_ELEMENT_SIZE)
    {version : Int} {id : UInt160} (hid : CScriptID H redeemScript version = some id) :
    ks.AddCScript H redeemScript version = some (true, ks.setScript id redeemScript) := by
  rw [AddCScript, if_neg (by omega), hid, Option.map_some]

end CBasicKeyStore

end BitcoinPQ

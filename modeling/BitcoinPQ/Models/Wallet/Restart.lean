import BitcoinPQ.Models.Wallet.IsMine

/-!
# Reloading the wallet

`wallet/wallet.cpp` and `wallet/walletdb.cpp`: the wallet writes a record for each key,
redeem script and watched script it adds, and a restart replays the records of its
database into an empty key store. A `cscript` record is written under the id the script
was added with, but the loader reads the script alone: `LoadCScript` adds it with
version `-1`, that is under its version 1 id. A script added with version 0 is found
under its version 0 id after a restart only where loading a key learns it again, as the
version 0 key-hash program of a compressed ECDSA key.

The database is the list of its records; the cursor reads them in an order of its own,
and the results on reloading hold for every order. Left out: key metadata and the
records without keys or scripts, key use counts (`Keys/KeyUseCount`), encryption, the
check of a private key against its public key in `CKey::Load`, and failures to write.
-/

namespace BitcoinPQ

/-- The records of the wallet database that hold keys and scripts. -/
inductive WalletRecord where
  /-- `key`: a private key under its public key. -/
  | key (pubkey : CPubKey) (key : CKey)
  /-- `cscript`: a redeem script under the id it was added with. -/
  | cscript (hash : UInt160) (script : CScript)
  /-- `watchs`: a watched script. -/
  | watchs (script : CScript)
  deriving DecidableEq

namespace WalletRecord

/-- Whether two records are written under the same database key. -/
def SameKey : WalletRecord → WalletRecord → Bool
  | .key pubkey _, .key pubkey' _ => pubkey == pubkey'
  | .cscript hash _, .cscript hash' _ => hash == hash'
  | .watchs script, .watchs script' => script == script'
  | _, _ => false

/-- `CWalletDB::IsKeyType`: a record whose failure makes the load corrupt. -/
def IsKeyType : WalletRecord → Bool
  | .key _ _ => true
  | _ => false

end WalletRecord

/-- `CWalletDB::WriteIC`: a record under a new key is added; one under a key already
written replaces the old one only with `fOverwrite`. -/
def WriteIC (db : List WalletRecord) (record : WalletRecord) (fOverwrite : Bool) :
    Bool × List WalletRecord :=
  if db.any (·.SameKey record) then
    if fOverwrite then (true, db.map fun r => if r.SameKey record then record else r)
    else (false, db)
  else (true, db ++ [record])

/-- `CWalletDB::EraseWatchOnly`: the `watchs` record of the script is erased. -/
def EraseWatchOnly (db : List WalletRecord) (dest : CScript) : List WalletRecord :=
  db.filter fun r => !r.SameKey (.watchs dest)

/-- `OutputType`. -/
inductive OutputType where
  | OUTPUT_TYPE_NONE
  | OUTPUT_TYPE_LEGACY
  | OUTPUT_TYPE_P2SH_SEGWIT
  | OUTPUT_TYPE_BECH32
  | OUTPUT_TYPE_BECH32_V1
  deriving DecidableEq

/-- `CWallet`, the part that holds keys and scripts: its key store and the records of
its database. -/
structure CWalletKeyStore where
  keystore : CBasicKeyStore
  db : List WalletRecord

namespace CWalletKeyStore

variable (C : SignCrypto) (w : CWalletKeyStore)

/-- `CWallet::RemoveWatchOnly`. -/
def RemoveWatchOnly (dest : CScript) : CWalletKeyStore :=
  ⟨w.keystore.RemoveWatchOnly C.hashes dest, EraseWatchOnly w.db dest⟩

/-- `CWallet::AddKeyPubKeyWithDB` in an unencrypted wallet: the key, then its
pay-to-pubkey-hash and pay-to-pubkey scripts no longer watched only, then its `key`
record. -/
def AddKeyPubKeyWithDB (secret : CKey) (pubkey : CPubKey) : Bool × CWalletKeyStore :=
  let w : CWalletKeyStore := { w with keystore := w.keystore.AddKeyPubKey C.hashes secret pubkey }
  let script := (GetScriptForDestination (.CKeyID (pubkey.GetID C.hashes))).getD []
  let w := if w.keystore.HaveWatchOnly script then w.RemoveWatchOnly C script else w
  let script := GetScriptForRawPubKey pubkey
  let w := if w.keystore.HaveWatchOnly script then w.RemoveWatchOnly C script else w
  let (ok, db) := WriteIC w.db (.key pubkey secret) false
  (ok, { w with db := db })

/-- `CWallet::AddCScript`: the script in the store under its versioned id, then its
`cscript` record under that id; `none` where `CScriptID` stops at its assertion. -/
def AddCScript (redeemScript : CScript) (version : Int) : Option (Bool × CWalletKeyStore) := do
  let (added, keystore) ← w.keystore.AddCScript C.hashes redeemScript version
  if added then
    let screptid ← CScriptID C.hashes redeemScript version
    let (ok, db) := WriteIC w.db (.cscript screptid redeemScript) false
    pure (ok, ⟨keystore, db⟩)
  else pure (false, { w with keystore := keystore })

/-- `CWallet::AddWatchOnly`: the script watched, then its `watchs` record; `none` where
`CScriptID` of the script's metadata stops at its assertion. -/
def AddWatchOnly (dest : CScript) (version : Int) : Option (Bool × CWalletKeyStore) := do
  let keystore := w.keystore.AddWatchOnly C.hashes dest
  -- the metadata is kept under `CScriptID(dest, version)`
  let _ ← CScriptID C.hashes dest version
  let (ok, db) := WriteIC w.db (.watchs dest) true
  pure (ok, ⟨keystore, db⟩)

/-- `CWallet::LearnRelatedScripts`: the pay-to-pubkey script of an XMSS key and its
version 1 program, or the version 0 key-hash program of a compressed ECDSA key for the
segwit output types; `none` for the `std::runtime_error` of an unsolvable program. -/
def LearnRelatedScripts (key : CPubKey) (type : OutputType) : Option CWalletKeyStore :=
  if key.IsXMSS then do
    let script := GetScriptForRawPubKey key
    let witprog ← GetScriptForDestination (.WitnessV1ScriptHash (WitnessV1ScriptHashOf C.hashes script))
    let (_, w) ← w.AddCScript C script 1
    let (_, w) ← w.AddCScript C witprog 1
    pure w
  else if is_key_segwit_useable key ∧
      (type = .OUTPUT_TYPE_P2SH_SEGWIT ∨ type = .OUTPUT_TYPE_BECH32) then do
    let witprog ← GetScriptForDestination (.WitnessV0KeyHash (key.GetID C.hashes))
    if IsSolvable C w.keystore witprog then
      let (_, w) ← w.AddCScript C witprog 0
      pure w
    else none
  else some w

/-- `CWallet::AddAndGetDestinationForScript`: the destination of a script for an output
type, with the programs it adds; `none` for the `assert(false)` of another type. -/
def AddAndGetDestinationForScript (script : CScript) (type : OutputType) :
    Option (CTxDestination × CWalletKeyStore) :=
  match type with
  | .OUTPUT_TYPE_LEGACY => do
    let id ← CScriptID C.hashes script 0
    pure (.CScriptID id, w)
  | .OUTPUT_TYPE_P2SH_SEGWIT | .OUTPUT_TYPE_BECH32 => do
    let hash := WitnessV0ScriptHashOf C.hashes script
    let witprog ← GetScriptForDestination (.WitnessV0ScriptHash hash)
    -- a program that is not solvable, with an uncompressed key, is not added
    if IsSolvable C w.keystore witprog then
      let (_, w) ← w.AddCScript C witprog 0
      if type = .OUTPUT_TYPE_BECH32 then pure (.WitnessV0ScriptHash hash, w)
      else do
        let id ← CScriptID C.hashes witprog 0
        pure (.CScriptID id, w)
    else pure (.CScriptID (CScriptID.ofWitnessHash C.hashes hash), w)
  | .OUTPUT_TYPE_BECH32_V1 => do
    let witdest := WitnessV1ScriptHashOf C.hashes script
    let witprog ← GetScriptForDestination (.WitnessV1ScriptHash witdest)
    if IsSolvable C w.keystore witprog then
      let (_, w) ← w.AddCScript C script 1
      let (_, w) ← w.AddCScript C witprog 1
      pure (.WitnessV1ScriptHash witdest, w)
    else pure (.CNoDestination, w)
  | .OUTPUT_TYPE_NONE => none

/-- A script of at most `MAX_SCRIPT_ELEMENT_SIZE` bytes is added to the store and its
record written, under its id. -/
theorem AddCScript_of_le {redeemScript : CScript} (hsize : redeemScript.length ≤ MAX_SCRIPT_ELEMENT_SIZE)
    {version : Int} {id : UInt160} (hid : CScriptID C.hashes redeemScript version = some id) :
    w.AddCScript C redeemScript version =
      some ((WriteIC w.db (.cscript id redeemScript) false).1,
        ⟨w.keystore.setScript id redeemScript, (WriteIC w.db (.cscript id redeemScript) false).2⟩) := by
  rw [AddCScript, CBasicKeyStore.AddCScript_of_le _ _ hsize hid]
  simp only [Option.bind_eq_bind, Option.bind_some, if_true, hid]
  rfl

end CWalletKeyStore

/-! ## The loader -/

/-- `DBErrors`: the results of a load that the records decide. -/
inductive DBErrors where
  | DB_LOAD_OK
  | DB_CORRUPT
  | DB_NONCRITICAL_ERROR
  deriving DecidableEq

section Load

variable (H : ScriptHashes)

/-- `CWallet::LoadCScript`: a script over `MAX_SCRIPT_ELEMENT_SIZE` is skipped with a
warning, any other added with version `-1`. -/
def LoadCScript (keystore : CBasicKeyStore) (redeemScript : CScript) : Option (Bool × CBasicKeyStore) :=
  if redeemScript.length > MAX_SCRIPT_ELEMENT_SIZE then some (true, keystore)
  else keystore.AddCScript H redeemScript (-1)

/-- `ReadKeyValue` on one record: the store it leaves, or the error it reports. -/
def ReadKeyValue (keystore : CBasicKeyStore) : WalletRecord → Except String CBasicKeyStore
  | .key pubkey key =>
    if !pubkey.IsValid then throw "Error reading wallet database: CPubKey corrupt"
    -- `LoadKey`
    else pure (keystore.AddKeyPubKey H key pubkey)
  | .cscript _ script =>
    -- the id the record is written under is read and not used
    match LoadCScript H keystore script with
    | some (true, keystore) => pure keystore
    | _ => throw "Error reading wallet database: LoadCScript failed"
  -- `LoadWatchOnly`, whose version `AddWatchOnly` does not read
  | .watchs script => pure (keystore.AddWatchOnly H script)

/-- One pass of the cursor loop of `CWalletDB::LoadWallet`: the store, and whether a key
record and whether another record failed. A failed record leaves the store as it was. -/
def loadRecord (state : CBasicKeyStore × Bool × Bool) (record : WalletRecord) :
    CBasicKeyStore × Bool × Bool :=
  match ReadKeyValue H state.1 record with
  | .ok keystore => (keystore, state.2)
  | .error _ => if record.IsKeyType then (state.1, true, state.2.2) else (state.1, state.2.1, true)

/-- `CWalletDB::LoadWallet`: the records replayed into an empty store, in the order the
cursor reads them. -/
def LoadWallet (records : List WalletRecord) : CBasicKeyStore × DBErrors :=
  let (keystore, corrupt, noncritical) :=
    records.foldl (loadRecord H) (CBasicKeyStore.empty, false, false)
  (keystore, if corrupt then .DB_CORRUPT else if noncritical then .DB_NONCRITICAL_ERROR else .DB_LOAD_OK)

/-! ## What a reloaded store holds -/

/-- Each script of the store is under its version 1 id, or is a version 0 key-hash
program under its version 0 id. -/
def ReloadedScripts (keystore : CBasicKeyStore) : Prop :=
  ∀ id script, keystore.mapScripts id = some script →
    id = H.Hash160v1 script ∨
      (∃ keyid : UInt160, script = OP_0 :: pushData keyid.data) ∧ id = H.Hash160 script

theorem ReloadedScripts.empty : ReloadedScripts H CBasicKeyStore.empty := by
  intro id script h
  cases h

variable {H}

theorem ReloadedScripts.of_mapScripts {ks ks' : CBasicKeyStore} (h : ReloadedScripts H ks)
    (heq : ks'.mapScripts = ks.mapScripts) : ReloadedScripts H ks' := by
  intro id script hs
  rw [heq] at hs
  exact h id script hs

theorem ReloadedScripts.setScript {ks : CBasicKeyStore} (h : ReloadedScripts H ks) {id : UInt160}
    {script : CScript}
    (hid : id = H.Hash160v1 script ∨
      (∃ keyid : UInt160, script = OP_0 :: pushData keyid.data) ∧ id = H.Hash160 script) :
    ReloadedScripts H (ks.setScript id script) := by
  intro id' script' hs
  rw [CBasicKeyStore.setScript_mapScripts] at hs
  by_cases hne : id' = id
  · subst hne
    rw [Function.update_self] at hs
    cases hs
    exact hid
  · rw [Function.update_of_ne hne] at hs
    exact h id' script' hs

/-- The scripts a key teaches are of both reloaded kinds. -/
theorem ReloadedScripts.learn {ks : CBasicKeyStore} (h : ReloadedScripts H ks) (pubkey : CPubKey) :
    ReloadedScripts H (ks.ImplicitlyLearnRelatedKeyScripts H pubkey) := by
  unfold CBasicKeyStore.ImplicitlyLearnRelatedKeyScripts
  split_ifs
  case pos =>
    exact (h.setScript (Or.inl rfl)).setScript (Or.inl rfl)
  case pos =>
    exact h.setScript (Or.inr ⟨⟨pubkey.GetID H, rfl⟩, rfl⟩)
  case neg =>
    exact h

theorem ReloadedScripts.AddKeyPubKey {ks : CBasicKeyStore} (h : ReloadedScripts H ks) (key : CKey)
    (pubkey : CPubKey) : ReloadedScripts H (ks.AddKeyPubKey H key pubkey) := by
  apply ReloadedScripts.learn
  exact h.of_mapScripts rfl

theorem ReloadedScripts.AddWatchOnly {ks : CBasicKeyStore} (h : ReloadedScripts H ks) (dest : CScript) :
    ReloadedScripts H (ks.AddWatchOnly H dest) := by
  unfold CBasicKeyStore.AddWatchOnly
  dsimp only
  split
  case h_1 pubKey _ =>
    apply ReloadedScripts.learn
    exact h.of_mapScripts rfl
  case h_2 =>
    exact h.of_mapScripts rfl

/-- A script loaded from its record is under its version 1 id. -/
theorem ReloadedScripts.of_LoadCScript {ks ks' : CBasicKeyStore} (h : ReloadedScripts H ks)
    {redeemScript : CScript} {b : Bool} (hload : LoadCScript H ks redeemScript = some (b, ks')) :
    ReloadedScripts H ks' := by
  unfold LoadCScript CBasicKeyStore.AddCScript at hload
  -- the size test of the loader is the one of the store
  split_ifs at hload with hbig
  case pos =>
    cases hload
    exact h
  case neg =>
    rw [CScriptID_neg_one, Option.map_some] at hload
    cases hload
    exact h.setScript (Or.inl rfl)

/-- Reading a record keeps the reloaded kinds. -/
theorem ReloadedScripts.of_ReadKeyValue {ks ks' : CBasicKeyStore} (h : ReloadedScripts H ks)
    {record : WalletRecord} (hread : ReadKeyValue H ks record = .ok ks') :
    ReloadedScripts H ks' := by
  cases record with
  | key pubkey key =>
    rw [ReadKeyValue] at hread
    -- a corrupt key throws, and only a valid one is loaded
    split_ifs at hread with hinvalid
    cases hread
    exact h.AddKeyPubKey key pubkey
  | cscript hash script =>
    rw [ReadKeyValue] at hread
    split at hread
    case h_1 ks'' hload =>
      cases hread
      exact h.of_LoadCScript hload
    case h_2 => cases hread
  | watchs script =>
    cases hread
    exact h.AddWatchOnly script

/-- The replay keeps the reloaded kinds, from any store that has them. -/
theorem ReloadedScripts.foldl_loadRecord (records : List WalletRecord) :
    ∀ state : CBasicKeyStore × Bool × Bool, ReloadedScripts H state.1 →
      ReloadedScripts H (records.foldl (loadRecord H) state).1 := by
  -- induction on the records: one pass of the loop keeps the invariant
  induction records with
  | nil => exact fun _ h => h
  | cons record records ih =>
    intro state h
    apply ih
    unfold loadRecord
    split
    case h_1 ks hread => exact h.of_ReadKeyValue hread
    case h_2 => split_ifs <;> exact h

/-- Every store a load leaves has its scripts under their version 1 ids, but for version
0 key-hash programs. -/
theorem LoadWallet_ReloadedScripts (records : List WalletRecord) :
    ReloadedScripts H (LoadWallet H records).1 :=
  ReloadedScripts.foldl_loadRecord records _ (ReloadedScripts.empty H)

end Load

/-! ## A script lost on restart -/

/-- A script added with version 0 that is no version 0 key-hash program, and whose two
ids differ, is in the store under its version 0 id, and is under it in no store that a
load of the database's records leaves, in whatever order the cursor reads them. -/
theorem AddCScript_v0_lost_on_restart (C : SignCrypto) (w : CWalletKeyStore) {s : CScript}
    (hsize : s.length ≤ MAX_SCRIPT_ELEMENT_SIZE) (hids : C.hashes.Hash160 s ≠ C.hashes.Hash160v1 s)
    (hkeyhash : ∀ keyid : UInt160, s ≠ OP_0 :: pushData keyid.data) :
    ∃ ok w', w.AddCScript C s 0 = some (ok, w') ∧
      w'.keystore.GetCScript (C.hashes.Hash160 s) = some s ∧
      ∀ records, records.Perm w'.db →
        (LoadWallet C.hashes records).1.GetCScript (C.hashes.Hash160 s) ≠ some s := by
  refine ⟨_, _, CWalletKeyStore.AddCScript_of_le C w hsize (CScriptID_zero _ _),
    CBasicKeyStore.GetCScript_setScript_self _ _ _, ?_⟩
  intro records _ hget
  rcases LoadWallet_ReloadedScripts records _ _ hget with hv1 | ⟨⟨keyid, hkey⟩, -⟩
  case inl => exact hids hv1
  case inr => exact hkeyhash keyid hkey

/-- The legacy private key of the uncompressed public key `04 00..00`. -/
def legacyKey : CKey := ⟨[], true, false⟩

def uncompressedPubKey : CPubKey := ⟨4 :: List.replicate 64 0⟩

/-- The pay-to-pubkey-hash script of the uncompressed key. -/
def restartScript : CScript :=
  [OP_DUP, OP_HASH160] ++ pushData (uncompressedPubKey.GetID prefixHashes).data ++ [OP_EQUALVERIFY, OP_CHECKSIG]

/-- A wallet that holds the uncompressed key. -/
def restartWallet : CWalletKeyStore :=
  (CWalletKeyStore.AddKeyPubKeyWithDB prefixCrypto ⟨CBasicKeyStore.empty, []⟩ legacyKey uncompressedPubKey).2

/-- The pay-to-pubkey-hash script of a held key, added with version 0, is lost on restart. -/
theorem restartScript_lost_on_restart :
    restartScript.length ≤ MAX_SCRIPT_ELEMENT_SIZE ∧
      prefixHashes.Hash160 restartScript ≠ prefixHashes.Hash160v1 restartScript ∧
      (∀ keyid : UInt160, restartScript ≠ OP_0 :: pushData keyid.data) ∧
      ∃ ok w', restartWallet.AddCScript prefixCrypto restartScript 0 = some (ok, w') ∧
        w'.keystore.GetCScript (prefixHashes.Hash160 restartScript) = some restartScript ∧
        ∀ records, records.Perm w'.db →
          (LoadWallet prefixHashes records).1.GetCScript (prefixHashes.Hash160 restartScript) ≠
            some restartScript := by
  have hsize : restartScript.length ≤ MAX_SCRIPT_ELEMENT_SIZE := by decide
  have hids : prefixHashes.Hash160 restartScript ≠ prefixHashes.Hash160v1 restartScript := by decide
  have hkeyhash : ∀ keyid : UInt160, restartScript ≠ OP_0 :: pushData keyid.data := by
    intro keyid h
    -- the script starts with `OP_DUP`, a key-hash program with `OP_0`
    have hhead := congrArg List.head? h
    rw [List.head?_cons] at hhead
    exact absurd hhead (by decide)
  exact ⟨hsize, hids, hkeyhash,
    AddCScript_v0_lost_on_restart prefixCrypto restartWallet hsize hids hkeyhash⟩

end BitcoinPQ

import BitcoinPQ.Core.Writes
import BitcoinPQ.Models.Coins.CacheRefinement
import BitcoinPQ.Models.Chain.BlockIndex
import BitcoinPQ.Models.Validation.PartialMerkle

/-!
# Connecting and disconnecting the coins of a block

`UpdateCoins` spends the inputs of a transaction, keeping the coins it spends in an
undo record, and adds its outputs (`AddCoins`); `DisconnectBlock` walks a block
backwards, spending the outputs of each transaction and putting back the coins of its
undo record (`ApplyTxInUndo`). Over a cache, each of these changes what the cache
reports by a run of writes (`Writes`). When every coin of the set is unspent,
spendable and of a positive height, and the block's outputs are new, disconnecting
with the undo data that connecting wrote is clean and gives back every coin the set
held before.

Left out: reading the undo data from disk, whose failure is an absent record here, and
the memory accounting of the cache.
-/

namespace BitcoinPQ

open Relax Writes

/-- `CTxUndo`: the coins the inputs of a transaction spent. -/
structure CTxUndo where
  vprevout : List Coin
  deriving DecidableEq

/-- `CBlockUndo`: the undo records of the transactions of a block but the first. -/
structure CBlockUndo where
  vtxundo : List CTxUndo
  deriving DecidableEq

/-- `DisconnectResult`. -/
inductive DisconnectResult
  | DISCONNECT_OK
  | DISCONNECT_UNCLEAN
  | DISCONNECT_FAILED
  deriving DecidableEq, Repr

/-- `CTransaction::GetHash`: the hash of the serialization without witness. -/
def CTransaction.GetHash (Hash : List UInt8 → UInt256) (tx : CTransaction) : UInt256 :=
  Hash (SerializeTransaction CDataStream false tx)

/-- `CBlockIndex::GetBlockHash`. -/
def CBlockIndex.GetBlockHash (p : CBlockIndex) : UInt256 := p.entry.phashBlock

/-- `MIN_TRANSACTION_OUTPUT_WEIGHT`: the weight of `CTxOut()`. -/
def MIN_TRANSACTION_OUTPUT_WEIGHT : Nat :=
  WITNESS_SCALE_FACTOR * CTxOut.serialize CSizeComputer CTxOut.null

/-- `MAX_OUTPUTS_PER_BLOCK`. -/
def MAX_OUTPUTS_PER_BLOCK : Nat := MAX_BLOCK_WEIGHT / MIN_TRANSACTION_OUTPUT_WEIGHT

section Code

variable {σ : Type} (base : CCoinsView σ) (Hash : List UInt8 → UInt256)

namespace CCoinsViewCache

/-- The loop of `HaveInputs`. -/
def haveInputsLoop : List CTxIn → StateM (CCoinsViewCache × σ) Bool
  | [] => pure true
  | txin :: vin => do
    if !(← HaveCoin base txin.prevout) then return false
    haveInputsLoop vin

/-- `HaveInputs`: every input of a transaction but a coinbase finds an unspent coin. -/
def HaveInputs (tx : CTransaction) : StateM (CCoinsViewCache × σ) Bool :=
  if !tx.IsCoinBase then haveInputsLoop base tx.vin else pure true

/-- The loop of `AccessByTxid` from output `n`, with `fuel` outputs left below
`MAX_OUTPUTS_PER_BLOCK`. -/
def accessByTxidLoop (txid : UInt256) : (n fuel : Nat) → StateM (CCoinsViewCache × σ) Coin
  | _, 0 => pure Coin.empty
  | n, fuel + 1 => do
    let alternate ← AccessCoin base ⟨txid, UInt32.ofNat n⟩
    if !alternate.IsSpent then return alternate
    accessByTxidLoop txid (n + 1) fuel

/-- `AccessByTxid`: the first unspent output of `txid`, or `Coin()`. -/
def AccessByTxid (txid : UInt256) : StateM (CCoinsViewCache × σ) Coin :=
  accessByTxidLoop base txid 0 MAX_OUTPUTS_PER_BLOCK

/-- The loop of `AddCoins` over the outputs from index `i` on. -/
def addCoinsLoop (txid : UInt256) (fCoinbase : Bool) (nHeight : Nat) (check : Bool) :
    Nat → List CTxOut → CoinsM (CCoinsViewCache × σ) Unit
  | _, [] => pure ()
  | i, txout :: vout => do
    let overwrite ← if check then liftM (HaveCoin base ⟨txid, UInt32.ofNat i⟩) else pure fCoinbase
    AddCoin ⟨txid, UInt32.ofNat i⟩ ⟨txout, fCoinbase, nHeight⟩ overwrite
    addCoinsLoop txid fCoinbase nHeight check (i + 1) vout

end CCoinsViewCache

/-- `AddCoins`: a coin for each output, overwriting only for a coinbase unless `check`
asks the cache. -/
def AddCoins (tx : CTransaction) (nHeight : Nat) (check : Bool) :
    CoinsM (CCoinsViewCache × σ) Unit :=
  CCoinsViewCache.addCoinsLoop base (tx.GetHash Hash) tx.IsCoinBase nHeight check 0 tx.vout

/-- The loop of `UpdateCoins` over the inputs: each prevout spent and its coin appended
to the undo record, which holds `Coin()` where nothing was moved out. -/
def updateCoinsLoop : List CTxIn → CoinsM (CCoinsViewCache × σ) (List Coin)
  | [] => pure []
  | txin :: vin => do
    let moveout ← liftM (CCoinsViewCache.SpendCoin base txin.prevout)
    failIf (moveout = none) (.assertion "is_spent")
    let vprevout ← updateCoinsLoop vin
    pure (moveout.getD Coin.empty :: vprevout)

/-- `UpdateCoins`, returning the undo record it fills. -/
def UpdateCoins (tx : CTransaction) (nHeight : Nat) : CoinsM (CCoinsViewCache × σ) CTxUndo := do
  let vprevout ← if !tx.IsCoinBase then updateCoinsLoop base tx.vin else pure []
  AddCoins base Hash tx nHeight false
  pure ⟨vprevout⟩

/-- `ApplyTxInUndo`: the coin put back at `out`. An undo record without a height takes
the height and coinbase flag of another unspent output of the same transaction. -/
def ApplyTxInUndo (undo : Coin) (out : COutPoint) :
    CoinsM (CCoinsViewCache × σ) DisconnectResult := do
  let fClean := !(← liftM (CCoinsViewCache.HaveCoin base out))
  let undo? ← if undo.nHeight = 0 then do
      let alternate ← liftM (CCoinsViewCache.AccessByTxid base out.hash)
      pure (if !alternate.IsSpent then
        some { undo with nHeight := alternate.nHeight, fCoinBase := alternate.fCoinBase } else none)
    else pure (some undo)
  match undo? with
  | none => pure .DISCONNECT_FAILED
  | some undo =>
    CCoinsViewCache.AddCoin out undo !fClean
    pure (if fClean then .DISCONNECT_OK else .DISCONNECT_UNCLEAN)

/-- The outputs of a transaction in `DisconnectBlock`, from index `o` on: each spendable
one spent, and whether each was there as the transaction created it. -/
def spendOutputsLoop (hash : UInt256) (is_coinbase : Bool) (nHeight : Nat) :
    Nat → List CTxOut → StateM (CCoinsViewCache × σ) Bool
  | _, [] => pure true
  | o, txout :: vout => do
    let fClean ← if !IsUnspendable txout.scriptPubKey then do
        let coin? ← CCoinsViewCache.SpendCoin base ⟨hash, UInt32.ofNat o⟩
        let coin := coin?.getD Coin.empty
        pure !(coin?.isNone || txout != coin.out || nHeight != coin.nHeight ||
          is_coinbase != coin.fCoinBase)
      else pure true
    let fCleanRest ← spendOutputsLoop hash is_coinbase nHeight (o + 1) vout
    pure (fClean && fCleanRest)

/-- The inputs of a transaction put back in `DisconnectBlock`, the last first: `none`
where an `ApplyTxInUndo` fails, else whether every one was clean. -/
def restoreInputsLoop : List (CTxIn × Coin) → CoinsM (CCoinsViewCache × σ) (Option Bool)
  | [] => pure (some true)
  | (txin, undo) :: rest => do
    let res ← ApplyTxInUndo base undo txin.prevout
    if res = .DISCONNECT_FAILED then return none
    let fClean? ← restoreInputsLoop rest
    pure (fClean?.map (res != .DISCONNECT_UNCLEAN && ·))

/-- The body of the loop of `DisconnectBlock` for one transaction, with its undo record
unless it is the first of the block. -/
def disconnectTx (nHeight : Nat) (tx : CTransaction) (txundo? : Option CTxUndo) :
    CoinsM (CCoinsViewCache × σ) (Option Bool) := do
  let fCleanOut ← liftM (spendOutputsLoop base (tx.GetHash Hash) tx.IsCoinBase nHeight 0 tx.vout)
  match txundo? with
  | none => pure (some fCleanOut)
  | some txundo =>
    if txundo.vprevout.length ≠ tx.vin.length then return none
    let fCleanIn? ← restoreInputsLoop base (tx.vin.zip txundo.vprevout).reverse
    pure (fCleanIn?.map (fCleanOut && ·))

/-- The loop of `DisconnectBlock` over the transactions, the last first. -/
def disconnectLoop (nHeight : Nat) :
    List (CTransaction × Option CTxUndo) → CoinsM (CCoinsViewCache × σ) (Option Bool)
  | [] => pure (some true)
  | (tx, txundo?) :: rest => do
    let some fClean ← disconnectTx base Hash nHeight tx txundo? | return none
    let fCleanRest? ← disconnectLoop nHeight rest
    pure (fCleanRest?.map (fClean && ·))

/-- `CChainState::DisconnectBlock`, given the undo data `UndoReadFromDisk` read (`none`
where the read fails). A missing `pprev` is dereferenced in the source; the model stops
there. -/
def DisconnectBlock (block : CBlock) (blockUndo? : Option CBlockUndo) (pindex : CBlockIndex) :
    CoinsM (CCoinsViewCache × σ) DisconnectResult := do
  let some blockUndo := blockUndo? | return .DISCONNECT_FAILED
  if blockUndo.vtxundo.length + 1 ≠ block.vtx.length then return .DISCONNECT_FAILED
  -- undo transactions in reverse order; all but the first have an undo record
  let txs := (block.vtx.zip (none :: blockUndo.vtxundo.map some)).reverse
  let some fClean ← disconnectLoop base Hash pindex.nHeight txs | return .DISCONNECT_FAILED
  let some pprev := pindex.pprev | throw (.assertion "pindex->pprev")
  liftM (CCoinsViewCache.SetBestBlock pprev.GetBlockHash : StateM (CCoinsViewCache × σ) Unit)
  pure (if fClean then .DISCONNECT_OK else .DISCONNECT_UNCLEAN)

end Code

/-! ## The writes of each step

What each step does to the coins a cache reports, as a run of writes: `UpdateCoins`
erases the inputs' coins and writes a coin at each spendable output; disconnecting
erases those outputs and writes back the coins of the undo record, the last first. -/

/-- The writes of `AddCoins` from output `i` on: a coin at each spendable output. -/
def addWrites (txid : UInt256) (fCoinbase : Bool) (nHeight : Nat) :
    Nat → List CTxOut → List (COutPoint × Option Coin)
  | _, [] => []
  | i, txout :: vout =>
    (if IsUnspendable txout.scriptPubKey then []
      else [(⟨txid, UInt32.ofNat i⟩, some ⟨txout, fCoinbase, nHeight⟩)]) ++
      addWrites txid fCoinbase nHeight (i + 1) vout

/-- The writes of spending the inputs `vin`. -/
def spendWrites (vin : List CTxIn) : List (COutPoint × Option Coin) :=
  vin.map fun txin => (txin.prevout, none)

namespace CTransaction

variable (Hash : List UInt8 → UInt256)

/-- The inputs a transaction spends: none for a coinbase. -/
def inputWrites (tx : CTransaction) : List (COutPoint × Option Coin) :=
  if tx.IsCoinBase then [] else spendWrites tx.vin

/-- The coins a transaction adds at `nHeight`. -/
def outputWrites (tx : CTransaction) (nHeight : Nat) : List (COutPoint × Option Coin) :=
  addWrites (tx.GetHash Hash) tx.IsCoinBase nHeight 0 tx.vout

/-- The writes of `UpdateCoins`. -/
def connectWrites (tx : CTransaction) (nHeight : Nat) : List (COutPoint × Option Coin) :=
  tx.inputWrites ++ tx.outputWrites Hash nHeight

/-- The undo record `UpdateCoins` fills over the set `m`: the coins of the inputs. -/
def undoCoins (m : UtxoMap) (tx : CTransaction) : List Coin :=
  if tx.IsCoinBase then [] else tx.vin.map fun txin => (m txin.prevout).getD Coin.empty

/-- The writes of disconnecting `tx`, connected at `nHeight`, with the undo coins
`vprevout`: its outputs erased, then the coins of its inputs put back, the last first. -/
def disconnectWrites (tx : CTransaction) (nHeight : Nat) (vprevout : List Coin) :
    List (COutPoint × Option Coin) :=
  (tx.outputWrites Hash nHeight).map (fun w => (w.1, none)) ++
    (tx.vin.zip vprevout).reverse.map fun p => (p.1.prevout, some p.2)

end CTransaction

/-- What connecting `tx` at `nHeight` to the set `m` needs for its disconnection to give
`m` back: unless it is a coinbase, its inputs are distinct coins of the set; its outputs
are unspent coins at distinct keys, new once the inputs are spent. -/
structure Connectable (Hash : List UInt8 → UInt256) (m : UtxoMap) (tx : CTransaction) (nHeight : Nat) :
    Prop where
  inputs_nodup : tx.IsCoinBase = false → (tx.vin.map CTxIn.prevout).Nodup
  inputs_present : tx.IsCoinBase = false → ∀ txin ∈ tx.vin, (m txin.prevout).isSome
  outputs_unspent : ∀ txout ∈ tx.vout, txout.IsNull = false
  outputs_nodup : ((tx.outputWrites Hash nHeight).map Prod.fst).Nodup
  outputs_new : ∀ w ∈ tx.outputWrites Hash nHeight, applyWrites m tx.inputWrites w.1 = none

/-- Every coin of the set unspent, with a spendable script and a height: what connecting
at positive heights keeps, and what lets an undo record put a coin back as it was. -/
def CoinsSound (m : UtxoMap) : Prop :=
  ∀ outpoint coin, m outpoint = some coin →
    coin.IsSpent = false ∧ IsUnspendable coin.out.scriptPubKey = false ∧ coin.nHeight ≠ 0

/-- The set after connecting `txs` in order at `nHeight`. -/
def connectedCoins (Hash : List UInt8 → UInt256) (nHeight : Nat) : UtxoMap → List CTransaction → UtxoMap
  | m, [] => m
  | m, tx :: txs => connectedCoins Hash nHeight (applyWrites m (tx.connectWrites Hash nHeight)) txs

/-- The undo records of connecting `txs` in order at `nHeight`, one for each. -/
def undoRecords (Hash : List UInt8 → UInt256) (nHeight : Nat) : UtxoMap → List CTransaction → List CTxUndo
  | _, [] => []
  | m, tx :: txs =>
    ⟨tx.undoCoins m⟩ :: undoRecords Hash nHeight (applyWrites m (tx.connectWrites Hash nHeight)) txs

/-- Each of `txs` connectable to the set the ones before it leave. -/
def ConnectableTxs (Hash : List UInt8 → UInt256) (nHeight : Nat) : UtxoMap → List CTransaction → Prop
  | _, [] => True
  | m, tx :: txs => Connectable Hash m tx nHeight ∧
    ConnectableTxs Hash nHeight (applyWrites m (tx.connectWrites Hash nHeight)) txs

/-- The coin `ApplyTxInUndo` puts back at `out` from the record `undo` where the cache
reports `coins`: the record, or, where it has no height, the record completed with the
height and coinbase flag of the first unspent output of the same transaction that
`AccessByTxid` finds. -/
def restoredCoin (coins : UtxoMap) (undo : Coin) (out : COutPoint) : Option Coin :=
  if undo.nHeight = 0 then
    ((List.range' 0 MAX_OUTPUTS_PER_BLOCK).findSome? fun i => coins ⟨out.hash, UInt32.ofNat i⟩).map
      fun alternate => { undo with nHeight := alternate.nHeight, fCoinBase := alternate.fCoinBase }
  else some undo

section RoundTrip

variable {Hash : List UInt8 → UInt256}

theorem addWrites_cons (txid : UInt256) (fCoinbase : Bool) (nHeight i : Nat) (txout : CTxOut)
    (vout : List CTxOut) :
    addWrites txid fCoinbase nHeight i (txout :: vout) =
      (if IsUnspendable txout.scriptPubKey then []
        else [(⟨txid, UInt32.ofNat i⟩, some ⟨txout, fCoinbase, nHeight⟩)]) ++
        addWrites txid fCoinbase nHeight (i + 1) vout := rfl

/-- A coin `AddCoins` writes is one of the spendable outputs, with the height and
coinbase flag given. -/
theorem mem_addWrites {txid : UInt256} {fCoinbase : Bool} {nHeight : Nat} :
    ∀ {i : Nat} {vout : List CTxOut} {w : COutPoint × Option Coin},
      w ∈ addWrites txid fCoinbase nHeight i vout →
      ∃ txout ∈ vout, IsUnspendable txout.scriptPubKey = false ∧ w.2 = some ⟨txout, fCoinbase, nHeight⟩
  | _, [], _, h => by cases h
  | i, txout :: vout, w, h => by
    rw [addWrites_cons, List.mem_append] at h
    rcases h with h | h
    · split_ifs at h with hu
      · cases h
      · rw [List.mem_singleton] at h
        exact ⟨txout, List.mem_cons_self, Bool.eq_false_iff.mpr hu, by rw [h]⟩
    · obtain ⟨t, ht, hu, hw⟩ := mem_addWrites h
      exact ⟨t, List.mem_cons_of_mem _ ht, hu, hw⟩

/-! ### A database with one coin

The witnesses of this module run a fresh cache over a database holding one coin, which
`spendTx` spends, with every transaction hashed to zero. -/

/-- A hash of all ones. -/
def onesHash : UInt256 := ⟨List.replicate 32 1, rfl⟩

/-- One unit at output 0 of the transaction `onesHash`, mined at height 1. -/
def oneCoin : Coin := ⟨⟨1, [0x51]⟩, false, 1⟩

/-- A database holding one coin. -/
def singleCoinDB (outpoint : COutPoint) (coin : Coin) (hashBestBlock : UInt256) : CCoinsViewDB :=
  ⟨(∅ : AList fun _ : COutPoint => Coin).insert outpoint coin, hashBestBlock⟩

/-- The database holding `oneCoin`. -/
def oneCoinDB : CCoinsViewDB := singleCoinDB ⟨onesHash, 0⟩ oneCoin onesHash

/-- A fresh cache over `oneCoinDB`. -/
def oneCoinCache : CCoinsViewCache × CCoinsViewDB := (CCoinsViewCache.init, oneCoinDB)

/-- A transaction spending `oneCoin` to one output. -/
def spendTx : CTransaction := ⟨[⟨⟨onesHash, 0⟩, [], SEQUENCE_FINAL, ⟨[]⟩⟩], [⟨1, [0x51]⟩], 2, 0⟩

theorem singleCoinDB_coins (outpoint : COutPoint) (coin : Coin) (hashBestBlock : UInt256) (o : COutPoint) :
    (cacheTop dbTop (CCoinsViewCache.init, singleCoinDB outpoint coin hashBestBlock)).coins o =
      if o = outpoint then some coin else none := by
  change ((∅ : AList fun _ : COutPoint => Coin).insert outpoint coin).lookup o = _
  split_ifs with ho
  · rw [ho, AList.lookup_insert]
  · rw [AList.lookup_insert_ne ho, AList.lookup_empty]

theorem singleCoinDB_inv {outpoint : COutPoint} {coin : Coin} (hcoin : coin.IsSpent = false)
    (hashBestBlock : UInt256) :
    cacheInv dbTop DBInv (CCoinsViewCache.init, singleCoinDB outpoint coin hashBestBlock) := by
  refine ⟨CCoinsMap.coherent_empty _, fun o c ho => ?_⟩
  have hview : (dbTop (singleCoinDB outpoint coin hashBestBlock)).coins o =
      if o = outpoint then some coin else none :=
    singleCoinDB_coins outpoint coin hashBestBlock o
  change (dbTop (singleCoinDB outpoint coin hashBestBlock)).coins o = some c at ho
  rw [hview] at ho
  split_ifs at ho
  obtain rfl := Option.some.inj ho
  exact hcoin

theorem oneCoinDB_sound : CoinsSound (cacheTop dbTop oneCoinCache).coins := by
  intro o c ho
  rw [oneCoinCache, oneCoinDB, singleCoinDB_coins] at ho
  split_ifs at ho
  obtain rfl := Option.some.inj ho
  decide

/-! ### A cache over three coins

The loops of `DisconnectBlock` are also run on a cache that has spent a coin of its
database and added a FRESH one, over a database with a coin of another transaction. -/

/-- Three units to `OP_TRUE`, mined at height 1. -/
def threeCoin : Coin := ⟨⟨3, [0x51]⟩, false, 1⟩

/-- Two units to `OP_TRUE`, mined at height 2. -/
def freshCoin : Coin := ⟨⟨2, [0x51]⟩, false, 2⟩

/-- Outputs 0 and 2 of `onesHash`, and output 0 of the transaction zero. -/
def threeCoinDB : CCoinsViewDB :=
  ⟨(((∅ : AList fun _ : COutPoint => Coin).insert ⟨onesHash, 0⟩ oneCoin).insert ⟨onesHash, 2⟩
    threeCoin).insert ⟨UInt256.zero, 0⟩ oneCoin, onesHash⟩

/-- A cache over `threeCoinDB` that has spent output 0 of `onesHash`, a DIRTY entry, and
added output 1 as `freshCoin`, DIRTY and FRESH. -/
def spentFreshCache : CCoinsViewCache × CCoinsViewDB :=
  (⟨onesHash, ((∅ : CCoinsMap).insert ⟨onesHash, 0⟩ ⟨Coin.empty, true, false⟩).insert ⟨onesHash, 1⟩
    ⟨freshCoin, true, true⟩⟩, threeCoinDB)

theorem spentFreshCache_inv : cacheInv dbTop DBInv spentFreshCache :=
  ⟨((CCoinsMap.coherent_empty _).insert (EntryCoherent.of_dirty rfl fun h => by cases h)).insert
      (EntryCoherent.of_dirty rfl fun _ => by decide),
    (((DBInv.empty _).insert _ (by decide)).insert _ (by decide)).insert _ (by decide)⟩

theorem spendTx_connectable :
    Connectable (fun _ => UInt256.zero) (cacheTop dbTop oneCoinCache).coins spendTx 2 where
  inputs_nodup _ := by decide
  inputs_present _ := by decide
  outputs_unspent := by decide
  outputs_nodup := by decide
  outputs_new := by decide

/-- Connecting at a positive height keeps the set sound. -/
theorem Connectable.coinsSound {m : UtxoMap} {tx : CTransaction} {nHeight : Nat}
    (hc : Connectable Hash m tx nHeight) (hm : CoinsSound m) (hh : nHeight ≠ 0) :
    CoinsSound (applyWrites m (tx.connectWrites Hash nHeight)) := by
  intro outpoint coin hcoin
  rcases applyWrites_eq_or_mem m _ outpoint with h | h
  · exact hm outpoint coin (h ▸ hcoin)
  · rw [hcoin, CTransaction.connectWrites, List.mem_append] at h
    rcases h with h | h
    · -- spending the inputs writes no coin
      unfold CTransaction.inputWrites at h
      split_ifs at h
      · cases h
      · obtain ⟨_, _, hw⟩ := List.mem_map.mp h
        cases hw
    · obtain ⟨txout, htxout, hu, hw⟩ := mem_addWrites h
      obtain rfl := Option.some.inj hw
      exact ⟨hc.outputs_unspent txout htxout, hu, hh⟩

theorem spendWrites_keys (vin : List CTxIn) :
    (spendWrites vin).map Prod.fst = vin.map CTxIn.prevout := by
  rw [spendWrites, List.map_map]
  rfl

/-- The inputs of a transaction other than a coinbase, each with its coin in the undo
record. -/
theorem zip_undoCoins {m : UtxoMap} {tx : CTransaction} (hcb : tx.IsCoinBase = false) :
    tx.vin.zip (tx.undoCoins m) = tx.vin.map fun txin => (txin, (m txin.prevout).getD Coin.empty) := by
  simpa [CTransaction.undoCoins, hcb] using
    List.zip_map' (f := id) (g := fun txin : CTxIn => (m txin.prevout).getD Coin.empty) (l := tx.vin)

theorem undoRecords_length (nHeight : Nat) :
    ∀ (m : UtxoMap) (txs : List CTransaction), (undoRecords Hash nHeight m txs).length = txs.length
  | _, [] => rfl
  | _, _ :: txs => congrArg (· + 1) (undoRecords_length nHeight _ txs)

/-- Erasing the new outputs gives back the set before them. -/
theorem applyWrites_erase_outputs {m : UtxoMap} {tx : CTransaction} {nHeight : Nat}
    (hc : Connectable Hash m tx nHeight) :
    applyWrites (applyWrites (applyWrites m tx.inputWrites) (tx.outputWrites Hash nHeight))
      ((tx.outputWrites Hash nHeight).map fun w => (w.1, none)) = applyWrites m tx.inputWrites := by
  have herase : ((tx.outputWrites Hash nHeight).map fun w => (w.1, (none : Option Coin))) =
      (tx.outputWrites Hash nHeight).map fun w => (w.1, applyWrites m tx.inputWrites w.1) :=
    List.map_congr_left fun w hw => by rw [hc.outputs_new w hw]
  rw [herase]
  exact applyWrites_restore _ hc.outputs_nodup

/-- Putting back the coins of the inputs, the last first, gives back the set they were
spent from. -/
theorem applyWrites_restore_inputs {m : UtxoMap} {tx : CTransaction} {nHeight : Nat}
    (hc : Connectable Hash m tx nHeight) :
    applyWrites (applyWrites m tx.inputWrites)
      ((tx.vin.zip (tx.undoCoins m)).reverse.map fun p => (p.1.prevout, some p.2)) = m := by
  cases hcb : tx.IsCoinBase with
  | true =>
    simp only [CTransaction.inputWrites, CTransaction.undoCoins, hcb, if_true, List.zip_nil_right,
      List.reverse_nil, List.map_nil, applyWrites_nil]
  | false =>
    have hkeys : ((spendWrites tx.vin).map Prod.fst).Nodup := by
      rw [spendWrites_keys]
      exact hc.inputs_nodup hcb
    have hput : (tx.vin.zip (tx.undoCoins m)).map (fun p => (p.1.prevout, some p.2)) =
        (spendWrites tx.vin).map fun w => (w.1, m w.1) := by
      rw [zip_undoCoins hcb, spendWrites, List.map_map, List.map_map]
      refine List.map_congr_left fun txin htxin => ?_
      obtain ⟨coin, hcoin⟩ := Option.isSome_iff_exists.mp (hc.inputs_present hcb txin htxin)
      simp only [Function.comp_apply, hcoin, Option.getD_some]
    simp only [CTransaction.inputWrites, hcb, Bool.false_eq_true, if_false]
    rw [List.map_reverse, hput, applyWrites_reverse _ (by rwa [List.map_map]),
      applyWrites_restore _ hkeys]

end RoundTrip

/-! ## Over a cache

Run on a coherent cache over a lawful parent, each step of the code changes what the
cache reports by the writes above and nothing else. -/

section Lawful

variable {σ : Type} (top : σ → RefLayer) (below : σ → List RefLayer) (Inv : σ → Prop)

/-- The cache went from `p` to `p'`, coherent, reporting `coins` with the same best
block, over the same layers. -/
structure CacheMoved (p p' : CCoinsViewCache × σ) (coins : UtxoMap) : Prop where
  inv : cacheInv top Inv p'
  top_eq : cacheTop top p' = { cacheTop top p with coins }
  below_eq : cacheBelow top below p' = cacheBelow top below p

variable {top below Inv}

theorem CacheMoved.refl {p : CCoinsViewCache × σ} (hinv : cacheInv top Inv p) :
    CacheMoved top below Inv p p (cacheTop top p).coins :=
  ⟨hinv, rfl, rfl⟩

theorem CacheMoved.trans {p p₁ p₂ : CCoinsViewCache × σ} {m₁ m₂ : UtxoMap}
    (h₁ : CacheMoved top below Inv p p₁ m₁) (h₂ : CacheMoved top below Inv p₁ p₂ m₂) :
    CacheMoved top below Inv p p₂ m₂ := by
  refine ⟨h₂.inv, ?_, h₂.below_eq.trans h₁.below_eq⟩
  rw [h₂.top_eq, h₁.top_eq]

theorem CacheMoved.coins {p p' : CCoinsViewCache × σ} {m : UtxoMap}
    (h : CacheMoved top below Inv p p' m) : (cacheTop top p').coins = m := by
  rw [h.top_eq]

/-- A step that keeps what the cache reports moves it by no write. -/
theorem CacheMoved.of_sameReports {p p' : CCoinsViewCache × σ}
    (h : SameReports (cacheTop top) (cacheBelow top below) (cacheInv top Inv) p p') :
    CacheMoved top below Inv p p' (cacheTop top p).coins :=
  ⟨h.2.2, h.1, h.2.1⟩

/-- A test over a list that reads two sets only where they agree gives the same on both. -/
theorem all_congr_reads {γ : Type} {m m' : UtxoMap} (key : γ → COutPoint)
    (test : γ → Option Coin → Bool) :
    ∀ {l : List γ}, (∀ x ∈ l, m' (key x) = m (key x)) →
      (l.all fun x => test x (m' (key x))) = l.all fun x => test x (m (key x))
  | [], _ => rfl
  | x :: l, h => by
    rw [List.all_cons, List.all_cons, h x List.mem_cons_self,
      all_congr_reads key test fun y hy => h y (List.mem_cons_of_mem _ hy)]

/-- The test `DisconnectBlock` makes of an output, on the coin `SpendCoin` moved out
where the cache reported `reported`: the output is there as the transaction created it. -/
theorem spendOutput_clean {r reported : Option Coin} (hr : r.bind Coin.unspent = reported)
    {txout : CTxOut} (hnull : txout.IsNull = false) (is_coinbase : Bool) (nHeight : Nat) :
    (!(r.isNone || txout != (r.getD Coin.empty).out || nHeight != (r.getD Coin.empty).nHeight ||
      is_coinbase != (r.getD Coin.empty).fCoinBase)) =
      decide (reported = some ⟨txout, is_coinbase, nHeight⟩) := by
  subst hr
  rcases r with _ | ⟨out, fCoinBase, h⟩
  · rfl
  · cases hs : out.IsNull with
    | true =>
      -- a spent coin moved out differs from the output
      have hne : txout ≠ out := fun h => by rw [h, hs] at hnull; cases hnull
      simp [Coin.unspent, Coin.IsSpent, hs, hne]
    | false =>
      simp only [Option.bind_some, Coin.unspent, Coin.IsSpent, hs, Bool.false_eq_true, if_false,
        Option.isNone_some, Option.getD_some, Option.some.injEq, Coin.mk.injEq]
      rw [Bool.eq_iff_iff]
      simp only [Bool.false_or, Bool.not_or, Bool.and_eq_true, Bool.not_eq_true', bne_eq_false_iff_eq,
        decide_eq_true_eq]
      constructor
      · rintro ⟨⟨h₁, h₂⟩, h₃⟩
        exact ⟨h₁.symm, h₃.symm, h₂.symm⟩
      · rintro ⟨h₁, h₂, h₃⟩
        exact ⟨⟨h₁.symm, h₃.symm⟩, h₂.symm⟩

/-- What `AddCoin` does to the map, as a write. -/
theorem RefLayer.addCoin_eq (l : RefLayer) (outpoint : COutPoint) (coin : Coin) :
    l.addCoin outpoint coin = { l with coins := (applyWrites l.coins
      (if IsUnspendable coin.out.scriptPubKey then [] else [(outpoint, some coin)])) } := by
  unfold RefLayer.addCoin
  split_ifs <;> rfl

/-- `AddCoin` of an unspent coin, where the cache reports nothing at `outpoint` unless
`possible_overwrite` allows it: the cache moves by the write of the coin, unless its
script is unspendable. -/
theorem AddCoin_moves (below : σ → List RefLayer) (p : CCoinsViewCache × σ) (hinv : cacheInv top Inv p) (outpoint : COutPoint)
    (coin : Coin) (possible_overwrite : Bool) (hspent : coin.IsSpent = false)
    (how : possible_overwrite = false → IsUnspendable coin.out.scriptPubKey = false →
      (cacheTop top p).coins outpoint = none) :
    ∃ c', (CCoinsViewCache.AddCoin outpoint coin possible_overwrite :
        CoinsM (CCoinsViewCache × σ) Unit).run.run p = (.ok (), (c', p.2)) ∧
      CacheMoved top below Inv p (c', p.2) (applyWrites (cacheTop top p).coins
        (if IsUnspendable coin.out.scriptPubKey then [] else [(outpoint, some coin)])) := by
  obtain ⟨c, s⟩ := p
  cases hu : IsUnspendable coin.out.scriptPubKey with
  | true =>
    refine ⟨c, ?_, CacheMoved.refl hinv⟩
    rw [CCoinsViewCache.AddCoin, failIf_neg _ (by rw [hspent]; decide), pure_bind, if_pos hu]
    rfl
  | false =>
    obtain ⟨c', hrun, hinv', htop⟩ :=
      AddCoin_run c s hinv outpoint coin possible_overwrite hspent fun h => how h hu
    refine ⟨c', hrun, hinv', ?_, rfl⟩
    rw [htop, RefLayer.addCoin_eq, hu]

theorem addCoinsLoop_cons (base : CCoinsView σ) (txid : UInt256) (fCoinbase : Bool)
    (nHeight i : Nat) (txout : CTxOut) (vout : List CTxOut) :
    CCoinsViewCache.addCoinsLoop base txid fCoinbase nHeight false i (txout :: vout) =
      (CCoinsViewCache.AddCoin ⟨txid, UInt32.ofNat i⟩ ⟨txout, fCoinbase, nHeight⟩ fCoinbase >>=
        fun _ => CCoinsViewCache.addCoinsLoop base txid fCoinbase nHeight false (i + 1) vout) := by
  rw [CCoinsViewCache.addCoinsLoop]
  rfl

/-- The loop of `AddCoins` without `check`, over outputs that are unspent coins at
distinct keys, new unless the transaction is a coinbase: the cache moves by their
writes. -/
theorem addCoinsLoop_run (below : σ → List RefLayer) (base : CCoinsView σ) (txid : UInt256) (fCoinbase : Bool) (nHeight : Nat) :
    ∀ (i : Nat) (vout : List CTxOut) (p : CCoinsViewCache × σ), cacheInv top Inv p →
      (∀ txout ∈ vout, txout.IsNull = false) →
      ((addWrites txid fCoinbase nHeight i vout).map Prod.fst).Nodup →
      (fCoinbase = false → ∀ w ∈ addWrites txid fCoinbase nHeight i vout,
        (cacheTop top p).coins w.1 = none) →
      ∃ c', (CCoinsViewCache.addCoinsLoop base txid fCoinbase nHeight false i vout).run.run p =
          (.ok (), (c', p.2)) ∧
        CacheMoved top below Inv p (c', p.2)
          (applyWrites (cacheTop top p).coins (addWrites txid fCoinbase nHeight i vout))
  | _, [], p, hinv, _, _, _ => ⟨p.1, rfl, CacheMoved.refl hinv⟩
  | i, txout :: vout, p, hinv, hnull, hkeys, hnew => by
    rw [addWrites_cons, List.map_append, List.nodup_append] at hkeys
    -- the first output, unless unspendable, is new and its key is none of the others'
    have hfirst : fCoinbase = false → IsUnspendable txout.scriptPubKey = false →
        (cacheTop top p).coins ⟨txid, UInt32.ofNat i⟩ = none := fun hcb hu =>
      hnew hcb _ (by rw [addWrites_cons, hu]; exact List.mem_append_left _ List.mem_cons_self)
    obtain ⟨c₁, hrun₁, hmoved₁⟩ := AddCoin_moves below p hinv _ ⟨txout, fCoinbase, nHeight⟩ fCoinbase
      (hnull txout List.mem_cons_self) hfirst
    have hnew' : fCoinbase = false → ∀ w ∈ addWrites txid fCoinbase nHeight (i + 1) vout,
        (cacheTop top (c₁, p.2)).coins w.1 = none := by
      intro hcb w hw
      have hw' : w.1 ∉ (if IsUnspendable txout.scriptPubKey then []
          else [((⟨txid, UInt32.ofNat i⟩ : COutPoint), some (⟨txout, fCoinbase, nHeight⟩ : Coin))]).map
            Prod.fst := fun h => hkeys.2.2 _ h _ (List.mem_map_of_mem hw) rfl
      rw [hmoved₁.coins, applyWrites_of_notMem _ hw']
      exact hnew hcb w (by rw [addWrites_cons]; exact List.mem_append_right _ hw)
    obtain ⟨c₂, hrun₂, hmoved₂⟩ := addCoinsLoop_run below base txid fCoinbase nHeight (i + 1) vout
      (c₁, p.2) hmoved₁.inv (fun t ht => hnull t (List.mem_cons_of_mem _ ht)) hkeys.2.1 hnew'
    refine ⟨c₂, ?_, ?_⟩
    · rw [addCoinsLoop_cons, run_bind_of_ok hrun₁]
      exact hrun₂
    · rw [addWrites_cons, applyWrites_append, ← hmoved₁.coins]
      exact hmoved₁.trans hmoved₂

end Lawful

section LawfulParent

variable {σ : Type} {top : σ → RefLayer} {below : σ → List RefLayer} {Inv : σ → Prop}
  {base : CCoinsView σ} {Ready : UInt256 → Prop} (hV : LawfulView top below Inv base Ready)
  {Hash : List UInt8 → UInt256}
include hV

omit hV in
theorem updateCoinsLoop_cons (txin : CTxIn) (vin : List CTxIn) :
    updateCoinsLoop base (txin :: vin) = (do
      let moveout ← liftM (CCoinsViewCache.SpendCoin base txin.prevout)
      failIf (moveout = none) (.assertion "is_spent")
      let vprevout ← updateCoinsLoop base vin
      pure (moveout.getD Coin.empty :: vprevout)) := by
  rw [updateCoinsLoop]

/-- `SpendCoin` where the cache reports a coin: it moves that coin out, and the cache
moves by erasing it. -/
theorem SpendCoin_moves (c : CCoinsViewCache) (s : σ) (hinv : cacheInv top Inv (c, s))
    {outpoint : COutPoint} {coin : Coin} (hcoin : (cacheTop top (c, s)).coins outpoint = some coin) :
    ∃ p', (CCoinsViewCache.SpendCoin base outpoint).run (c, s) = (some coin, p') ∧
      CacheMoved top below Inv (c, s) p' (applyWrites (cacheTop top (c, s)).coins [(outpoint, none)]) := by
  obtain ⟨r, c', s', hrun, hr, hinv', htop, hbelow⟩ := SpendCoin_run hV c s hinv outpoint
  rw [hcoin] at hr
  cases r with
  | none => cases hr
  | some r =>
    obtain ⟨rfl, -⟩ := Coin.unspent_eq_some hr
    exact ⟨(c', s'), hrun, hinv', by rw [htop]; rfl, hbelow⟩

/-- The loop of `UpdateCoins` over distinct inputs whose coins the cache reports: it
moves those coins out, and the cache moves by their spends. -/
theorem updateCoinsLoop_run : ∀ (vin : List CTxIn) (p : CCoinsViewCache × σ), cacheInv top Inv p →
    (vin.map CTxIn.prevout).Nodup → (∀ txin ∈ vin, ((cacheTop top p).coins txin.prevout).isSome) →
    ∃ p', (updateCoinsLoop base vin).run.run p =
        (.ok (vin.map fun txin => ((cacheTop top p).coins txin.prevout).getD Coin.empty), p') ∧
      CacheMoved top below Inv p p' (applyWrites (cacheTop top p).coins (spendWrites vin))
  | [], p, hinv, _, _ => ⟨p, rfl, CacheMoved.refl hinv⟩
  | txin :: vin, (c, s), hinv, hnodup, hpresent => by
    rw [List.map_cons, List.nodup_cons] at hnodup
    obtain ⟨coin, hcoin⟩ := Option.isSome_iff_exists.mp (hpresent txin List.mem_cons_self)
    obtain ⟨p₁, hrun₁, hmoved₁⟩ := SpendCoin_moves hV c s hinv hcoin
    -- the other inputs read the same coins after the first is spent
    have hsame : ∀ t ∈ vin, (cacheTop top p₁).coins t.prevout = (cacheTop top (c, s)).coins t.prevout := by
      intro t ht
      have hne : t.prevout ≠ txin.prevout := fun h => hnodup.1 (h ▸ List.mem_map_of_mem ht)
      rw [hmoved₁.coins, applyWrites_cons, applyWrites_nil, Function.update_of_ne hne]
    obtain ⟨p₂, hrun₂, hmoved₂⟩ := updateCoinsLoop_run vin p₁ hmoved₁.inv hnodup.2
      fun t ht => by rw [hsame t ht]; exact hpresent t (List.mem_cons_of_mem _ ht)
    refine ⟨p₂, ?_, ?_⟩
    · have hval : (txin :: vin).map (fun t => ((cacheTop top (c, s)).coins t.prevout).getD Coin.empty) =
          coin :: vin.map fun t => ((cacheTop top p₁).coins t.prevout).getD Coin.empty := by
        rw [List.map_cons, hcoin, Option.getD_some, List.map_congr_left fun t ht => by rw [← hsame t ht]]
      rw [hval, updateCoinsLoop_cons, run_liftM_bind, hrun₁]
      dsimp only
      rw [failIf_neg _ (Option.some_ne_none coin), pure_bind, run_bind_of_ok hrun₂]
      rfl
    · rw [spendWrites, List.map_cons, ← List.singleton_append, applyWrites_append, ← hmoved₁.coins]
      exact hmoved₁.trans hmoved₂

/-- `UpdateCoins` of a transaction connectable to what the cache reports: no error, the
undo record holds the coins of its inputs, and the cache moves by its writes. -/
theorem UpdateCoins_run (p : CCoinsViewCache × σ) (hinv : cacheInv top Inv p) (tx : CTransaction)
    (nHeight : Nat) (hc : Connectable Hash (cacheTop top p).coins tx nHeight) :
    ∃ p', (UpdateCoins base Hash tx nHeight).run.run p = (.ok ⟨tx.undoCoins (cacheTop top p).coins⟩, p') ∧
      CacheMoved top below Inv p p' (applyWrites (cacheTop top p).coins (tx.connectWrites Hash nHeight)) := by
  cases hcb : tx.IsCoinBase with
  | true =>
    obtain ⟨c₁, hrun₁, hmoved₁⟩ := addCoinsLoop_run below base (tx.GetHash Hash) tx.IsCoinBase nHeight 0
      tx.vout p hinv hc.outputs_unspent hc.outputs_nodup (fun h => absurd (hcb ▸ h) (by decide))
    refine ⟨(c₁, p.2), ?_, ?_⟩
    · simp only [hcb] at hrun₁
      simp only [UpdateCoins, hcb, Bool.not_true, Bool.false_eq_true, if_false, pure_bind, AddCoins]
      rw [run_bind_of_ok hrun₁]
      simp only [CTransaction.undoCoins, hcb, if_true]
      rfl
    · simp only [CTransaction.connectWrites, CTransaction.inputWrites, hcb, if_true, List.nil_append]
      exact hmoved₁
  | false =>
    have hinputs : ((cacheTop top p).coins |> fun m => ∀ txin ∈ tx.vin, (m txin.prevout).isSome) :=
      hc.inputs_present hcb
    obtain ⟨p₁, hrun₁, hmoved₁⟩ := updateCoinsLoop_run hV tx.vin p hinv (hc.inputs_nodup hcb) hinputs
    have hnew : tx.IsCoinBase = false → ∀ w ∈ tx.outputWrites Hash nHeight,
        (cacheTop top p₁).coins w.1 = none := by
      intro _ w hw
      rw [hmoved₁.coins]
      simpa only [CTransaction.inputWrites, hcb, Bool.false_eq_true, if_false] using hc.outputs_new w hw
    obtain ⟨c₂, hrun₂, hmoved₂⟩ := addCoinsLoop_run below base (tx.GetHash Hash) tx.IsCoinBase nHeight 0
      tx.vout p₁ hmoved₁.inv hc.outputs_unspent hc.outputs_nodup hnew
    refine ⟨(c₂, p₁.2), ?_, ?_⟩
    · simp only [hcb] at hrun₂
      simp only [UpdateCoins, hcb, Bool.not_false, if_true, AddCoins]
      rw [run_bind_of_ok hrun₁, run_bind_of_ok hrun₂]
      simp only [CTransaction.undoCoins, hcb, Bool.false_eq_true, if_false]
      rfl
    · rw [CTransaction.connectWrites, applyWrites_append]
      simp only [CTransaction.inputWrites, hcb, Bool.false_eq_true, if_false]
      rw [← hmoved₁.coins]
      exact hmoved₁.trans hmoved₂

omit hV in
theorem UpdateCoins_run_spendTx :
    ∃ p', (UpdateCoins CCoinsViewDB.view (fun _ => UInt256.zero) spendTx 2).run.run oneCoinCache =
        (.ok ⟨spendTx.undoCoins (cacheTop dbTop oneCoinCache).coins⟩, p') ∧
      CacheMoved dbTop (fun _ => []) DBInv oneCoinCache p'
        (applyWrites (cacheTop dbTop oneCoinCache).coins (spendTx.connectWrites (fun _ => UInt256.zero) 2)) :=
  UpdateCoins_run db_lawful oneCoinCache (singleCoinDB_inv (by decide) onesHash) spendTx 2 spendTx_connectable

/-- The loop of `AccessByTxid` returns the first coin the cache reports among the
outputs of `txid` it looks at, or `Coin()`, and changes nothing the cache reports. -/
theorem accessByTxidLoop_run (txid : UInt256) :
    ∀ (n fuel : Nat) (p : CCoinsViewCache × σ), cacheInv top Inv p →
      ∃ p', (CCoinsViewCache.accessByTxidLoop base txid n fuel).run p =
          (((List.range' n fuel).findSome? fun i =>
            (cacheTop top p).coins ⟨txid, UInt32.ofNat i⟩).getD Coin.empty, p') ∧
        CacheMoved top below Inv p p' (cacheTop top p).coins
  | _, 0, p, hinv => ⟨p, rfl, CacheMoved.refl hinv⟩
  | n, fuel + 1, (c, s), hinv => by
    obtain ⟨coin, c₁, s₁, hrun₁, hview, hsame⟩ := AccessCoin_run hV c s hinv ⟨txid, UInt32.ofNat n⟩
    have hmoved₁ := CacheMoved.of_sameReports hsame
    rw [List.range'_succ, List.findSome?_cons, ← hview, Coin.unspent]
    cases hs : coin.IsSpent with
    | false =>
      refine ⟨(c₁, s₁), ?_, hmoved₁⟩
      rw [CCoinsViewCache.accessByTxidLoop, stateRun_bind_of_eq hrun₁]
      simp only [hs, Bool.not_false, if_true, Bool.false_eq_true, if_false, Option.getD_some]
      rfl
    | true =>
      obtain ⟨p₂, hrun₂, hmoved₂⟩ := accessByTxidLoop_run txid (n + 1) fuel (c₁, s₁) hmoved₁.inv
      rw [hmoved₁.coins] at hrun₂ hmoved₂
      refine ⟨p₂, ?_, hmoved₁.trans hmoved₂⟩
      rw [CCoinsViewCache.accessByTxidLoop, stateRun_bind_of_eq hrun₁]
      simp only [hs, Bool.not_true, Bool.false_eq_true, if_true, if_false]
      exact hrun₂

omit hV in
/-- Output 0 of `onesHash` is spent in the cache, so the loop returns the FRESH coin at
output 1 before reaching the database's coin at output 2. -/
theorem accessByTxidLoop_run_spentFreshCache :
    ((List.range' 0 3).findSome? fun i =>
        (cacheTop dbTop spentFreshCache).coins ⟨onesHash, UInt32.ofNat i⟩).getD Coin.empty = freshCoin ∧
    ∃ p', (CCoinsViewCache.accessByTxidLoop CCoinsViewDB.view onesHash 0 3).run spentFreshCache =
        (((List.range' 0 3).findSome? fun i =>
          (cacheTop dbTop spentFreshCache).coins ⟨onesHash, UInt32.ofNat i⟩).getD Coin.empty, p') ∧
      CacheMoved dbTop (fun _ => []) DBInv spentFreshCache p' (cacheTop dbTop spentFreshCache).coins :=
  ⟨by decide, accessByTxidLoop_run db_lawful onesHash 0 3 spentFreshCache spentFreshCache_inv⟩

/-- `ApplyTxInUndo` of a record that gives a coin to put back: `DISCONNECT_UNCLEAN` where
the cache already reported a coin at `out`, else `DISCONNECT_OK`; the cache moves by the
write of the coin, unless its script is unspendable. -/
theorem ApplyTxInUndo_run (p : CCoinsViewCache × σ) (hinv : cacheInv top Inv p) (undo : Coin)
    (out : COutPoint) (hspent : undo.IsSpent = false) {coin : Coin}
    (hcoin : restoredCoin (cacheTop top p).coins undo out = some coin) :
    ∃ p', (ApplyTxInUndo base undo out).run.run p =
        (.ok (if ((cacheTop top p).coins out).isSome then .DISCONNECT_UNCLEAN else .DISCONNECT_OK), p') ∧
      CacheMoved top below Inv p p' (applyWrites (cacheTop top p).coins
        (if IsUnspendable coin.out.scriptPubKey then [] else [(out, some coin)])) := by
  obtain ⟨c, s⟩ := p
  obtain ⟨c₁, s₁, hrun₁, hsame₁⟩ := HaveCoin_run hV c s hinv out
  have hmoved₁ := CacheMoved.of_sameReports hsame₁
  have hcoin_spent : coin.IsSpent = false := by
    unfold restoredCoin at hcoin
    split_ifs at hcoin
    · obtain ⟨_, _, rfl⟩ := Option.map_eq_some_iff.mp hcoin
      exact hspent
    · obtain rfl := Option.some.inj hcoin
      exact hspent
  -- the coin put back, from wherever the record was completed
  have hadd : ∀ p₂, CacheMoved top below Inv (c, s) p₂ (cacheTop top (c, s)).coins →
      ∃ p', (CCoinsViewCache.AddCoin out coin (!!((cacheTop top (c, s)).coins out).isSome) >>=
          fun _ => pure (if (!((cacheTop top (c, s)).coins out).isSome) = true then
            DisconnectResult.DISCONNECT_OK else .DISCONNECT_UNCLEAN) :
          CoinsM (CCoinsViewCache × σ) DisconnectResult).run.run p₂ =
        (.ok (if ((cacheTop top (c, s)).coins out).isSome then .DISCONNECT_UNCLEAN else .DISCONNECT_OK), p') ∧
      CacheMoved top below Inv (c, s) p' (applyWrites (cacheTop top (c, s)).coins
        (if IsUnspendable coin.out.scriptPubKey then [] else [(out, some coin)])) := by
    intro p₂ hmoved₂
    obtain ⟨c₃, hrun₃, hmoved₃⟩ := AddCoin_moves below p₂ hmoved₂.inv out coin
      (!!((cacheTop top (c, s)).coins out).isSome) hcoin_spent fun how _ => by
        rw [hmoved₂.coins]
        simpa only [Bool.not_not, Option.isSome_eq_false_iff, Option.isNone_iff_eq_none] using how
    rw [hmoved₂.coins] at hmoved₃
    refine ⟨(c₃, p₂.2), ?_, hmoved₂.trans hmoved₃⟩
    rw [run_bind_of_ok hrun₃]
    cases ((cacheTop top (c, s)).coins out).isSome <;> rfl
  by_cases hh : undo.nHeight = 0
  · -- no height: completed from another output of the same transaction
    rw [restoredCoin, if_pos hh] at hcoin
    obtain ⟨alternate, hfind, rfl⟩ := Option.map_eq_some_iff.mp hcoin
    obtain ⟨p₂, hrun₂, hmoved₂⟩ :=
      accessByTxidLoop_run hV out.hash 0 MAX_OUTPUTS_PER_BLOCK (c₁, s₁) hmoved₁.inv
    rw [hmoved₁.coins, hfind, Option.getD_some] at hrun₂
    rw [hmoved₁.coins] at hmoved₂
    have halt : alternate.IsSpent = false := by
      obtain ⟨i, -, hi⟩ := List.exists_of_findSome?_eq_some hfind
      exact (cache_lawful hV).allUnspent (c, s) hinv _ _ hi
    obtain ⟨p', hrun', hmoved'⟩ := hadd p₂ (hmoved₁.trans hmoved₂)
    refine ⟨p', ?_, hmoved'⟩
    rw [ApplyTxInUndo, run_liftM_bind, hrun₁]
    dsimp only
    rw [if_pos hh, run_liftM_bind, CCoinsViewCache.AccessByTxid, hrun₂]
    simp only [halt, Bool.not_false, if_true, pure_bind]
    exact hrun'
  · rw [restoredCoin, if_neg hh] at hcoin
    obtain rfl := Option.some.inj hcoin
    obtain ⟨p', hrun', hmoved'⟩ := hadd (c₁, s₁) hmoved₁
    refine ⟨p', ?_, hmoved'⟩
    rw [ApplyTxInUndo, run_liftM_bind, hrun₁]
    dsimp only
    rw [if_neg hh, pure_bind]
    exact hrun'

omit hV in
/-- A record without a height, put back at output 1 of the transaction of `oneCoin`,
takes the height of `oneCoin`. -/
theorem ApplyTxInUndo_run_legacy :
    ∃ p', (ApplyTxInUndo CCoinsViewDB.view ⟨⟨1, [0x51]⟩, false, 0⟩ ⟨onesHash, 1⟩).run.run oneCoinCache =
        (.ok (if ((cacheTop dbTop oneCoinCache).coins ⟨onesHash, 1⟩).isSome then .DISCONNECT_UNCLEAN
          else .DISCONNECT_OK), p') ∧
      CacheMoved dbTop (fun _ => []) DBInv oneCoinCache p' (applyWrites (cacheTop dbTop oneCoinCache).coins
        (if IsUnspendable [0x51] then [] else [(⟨onesHash, 1⟩, some ⟨⟨1, [0x51]⟩, false, 1⟩)])) :=
  ApplyTxInUndo_run db_lawful oneCoinCache (singleCoinDB_inv (by decide) onesHash) ⟨⟨1, [0x51]⟩, false, 0⟩
    ⟨onesHash, 1⟩ (by decide) (by rfl)

/-- The outputs of a transaction in `DisconnectBlock`, at distinct keys: the result says
whether each spendable one was there as the transaction created it, and the cache
moves by erasing them. -/
theorem spendOutputsLoop_run (hash : UInt256) (is_coinbase : Bool) (nHeight : Nat) :
    ∀ (o : Nat) (vout : List CTxOut) (p : CCoinsViewCache × σ), cacheInv top Inv p →
      (∀ txout ∈ vout, txout.IsNull = false) →
      ((addWrites hash is_coinbase nHeight o vout).map Prod.fst).Nodup →
      ∃ p', (spendOutputsLoop base hash is_coinbase nHeight o vout).run p =
          ((addWrites hash is_coinbase nHeight o vout).all
            (fun w => decide ((cacheTop top p).coins w.1 = w.2)), p') ∧
        CacheMoved top below Inv p p' (applyWrites (cacheTop top p).coins
          ((addWrites hash is_coinbase nHeight o vout).map fun w => (w.1, none)))
  | _, [], p, hinv, _, _ => ⟨p, rfl, CacheMoved.refl hinv⟩
  | o, txout :: vout, (c, s), hinv, hnull, hkeys => by
    rw [addWrites_cons, List.map_append, List.nodup_append] at hkeys
    have hnull' : ∀ t ∈ vout, t.IsNull = false := fun t ht => hnull t (List.mem_cons_of_mem _ ht)
    rw [addWrites_cons]
    cases hu : IsUnspendable txout.scriptPubKey with
    | true =>
      -- an unspendable output is skipped
      obtain ⟨p₂, hrun₂, hmoved₂⟩ := spendOutputsLoop_run hash is_coinbase nHeight (o + 1) vout (c, s) hinv hnull' hkeys.2.1
      refine ⟨p₂, ?_, ?_⟩
      · rw [spendOutputsLoop]
        simp only [hu, Bool.not_true, Bool.false_eq_true, if_true, if_false, pure_bind]
        rw [stateRun_bind_of_eq hrun₂]
        rfl
      · simpa only [if_true, List.nil_append] using hmoved₂
    | false =>
      obtain ⟨r, c₁, s₁, hrun₁, hr, hinv₁, htop₁, hbelow₁⟩ := SpendCoin_run hV c s hinv ⟨hash, UInt32.ofNat o⟩
      have hmoved₁ : CacheMoved top below Inv (c, s) (c₁, s₁)
          (applyWrites (cacheTop top (c, s)).coins [(⟨hash, UInt32.ofNat o⟩, none)]) :=
        ⟨hinv₁, by rw [htop₁]; rfl, hbelow₁⟩
      -- the later outputs read the same coins after this one is spent
      have hsame : ∀ w ∈ addWrites hash is_coinbase nHeight (o + 1) vout,
          (cacheTop top (c₁, s₁)).coins w.1 = (cacheTop top (c, s)).coins w.1 := by
        intro w hw
        have hne : w.1 ≠ ⟨hash, UInt32.ofNat o⟩ := fun h =>
          hkeys.2.2 _ (by rw [hu]; exact List.mem_singleton_self _) _ (List.mem_map_of_mem hw) h.symm
        rw [hmoved₁.coins, applyWrites_cons, applyWrites_nil, Function.update_of_ne hne]
      obtain ⟨p₂, hrun₂, hmoved₂⟩ := spendOutputsLoop_run hash is_coinbase nHeight (o + 1) vout (c₁, s₁) hinv₁ hnull' hkeys.2.1
      refine ⟨p₂, ?_, ?_⟩
      · rw [spendOutputsLoop]
        simp only [hu, Bool.not_false, if_true, Bool.false_eq_true, if_false]
        rw [stateRun_bind_of_eq hrun₁, pure_bind, stateRun_bind_of_eq hrun₂,
          all_congr_reads Prod.fst (fun w o => decide (o = w.2)) hsame,
          spendOutput_clean hr (hnull txout List.mem_cons_self)]
        rfl
      · rw [List.map_append, applyWrites_append]
        simp only [Bool.false_eq_true, if_false, List.map_cons, List.map_nil]
        rw [← hmoved₁.coins]
        exact hmoved₁.trans hmoved₂

/-- The outputs of `onesHash` as mined at height 1: output 0 is `oneCoin`'s, output 1
is an `OP_RETURN`, output 2 is `threeCoin`'s. -/
def threeOuts : List CTxOut := [⟨1, [0x51]⟩, ⟨0, [OP_RETURN]⟩, ⟨3, [0x51]⟩]

omit hV in
/-- Disconnecting `threeOuts` from `spentFreshCache` is unclean: output 0 is already spent
there. The `OP_RETURN` output is skipped and leaves the FRESH coin at output 1. -/
theorem spendOutputsLoop_run_spentFreshCache :
    (addWrites onesHash false 1 0 threeOuts).all
        (fun w => decide ((cacheTop dbTop spentFreshCache).coins w.1 = w.2)) = false ∧
    ∃ p', (spendOutputsLoop CCoinsViewDB.view onesHash false 1 0 threeOuts).run spentFreshCache =
        ((addWrites onesHash false 1 0 threeOuts).all
          (fun w => decide ((cacheTop dbTop spentFreshCache).coins w.1 = w.2)), p') ∧
      CacheMoved dbTop (fun _ => []) DBInv spentFreshCache p' (applyWrites (cacheTop dbTop spentFreshCache).coins
        ((addWrites onesHash false 1 0 threeOuts).map fun w => (w.1, none))) :=
  ⟨by decide, spendOutputsLoop_run db_lawful onesHash false 1 0 threeOuts spentFreshCache spentFreshCache_inv
    (by decide) (by decide)⟩

/-- Putting back coins with heights at distinct outpoints: no failure, the result says
whether the cache reported none of them, and the cache moves by the writes of the
spendable ones. -/
theorem restoreInputsLoop_run :
    ∀ (l : List (CTxIn × Coin)) (p : CCoinsViewCache × σ), cacheInv top Inv p →
      (l.map fun e => e.1.prevout).Nodup → (∀ e ∈ l, e.2.nHeight ≠ 0 ∧ e.2.IsSpent = false) →
      ∃ p', (restoreInputsLoop base l).run.run p =
          (.ok (some (l.all fun e => ((cacheTop top p).coins e.1.prevout).isNone)), p') ∧
        CacheMoved top below Inv p p' (applyWrites (cacheTop top p).coins (l.flatMap fun e =>
          if IsUnspendable e.2.out.scriptPubKey then [] else [(e.1.prevout, some e.2)]))
  | [], p, hinv, _, _ => ⟨p, rfl, CacheMoved.refl hinv⟩
  | (txin, undo) :: l, p, hinv, hnodup, hundo => by
    rw [List.map_cons, List.nodup_cons] at hnodup
    obtain ⟨hh, hspent⟩ := hundo _ List.mem_cons_self
    obtain ⟨p₁, hrun₁, hmoved₁⟩ := ApplyTxInUndo_run hV p hinv undo txin.prevout hspent
      (by rw [restoredCoin, if_neg hh])
    -- the other outpoints read the same coins after this one is put back
    have hsame : ∀ e ∈ l, (cacheTop top p₁).coins e.1.prevout = (cacheTop top p).coins e.1.prevout := by
      intro e he
      have hne : e.1.prevout ≠ txin.prevout := fun h => hnodup.1 (h ▸ List.mem_map_of_mem he)
      rw [hmoved₁.coins]
      split_ifs
      · rfl
      · rw [applyWrites_cons, applyWrites_nil, Function.update_of_ne hne]
    obtain ⟨p₂, hrun₂, hmoved₂⟩ := restoreInputsLoop_run l p₁ hmoved₁.inv hnodup.2
      fun e he => hundo e (List.mem_cons_of_mem _ he)
    have hall : (l.all fun e => ((cacheTop top p₁).coins e.1.prevout).isNone) =
        l.all fun e => ((cacheTop top p).coins e.1.prevout).isNone :=
      all_congr_reads (fun e : CTxIn × Coin => e.1.prevout) (fun _ o => o.isNone) hsame
    rw [hall] at hrun₂
    refine ⟨p₂, ?_, ?_⟩
    · rw [restoreInputsLoop, run_bind_of_ok hrun₁]
      cases hsome : ((cacheTop top p).coins txin.prevout).isSome with
      | true =>
        simp only [if_true]
        rw [if_neg (by decide), run_bind_of_ok hrun₂]
        simp only [List.all_cons, ← Option.not_isSome, hsome]
        rfl
      | false =>
        simp only [Bool.false_eq_true, if_false]
        rw [if_neg (by decide), run_bind_of_ok hrun₂]
        simp only [List.all_cons, ← Option.not_isSome, hsome]
        rfl
    · rw [List.flatMap_cons, applyWrites_append, ← hmoved₁.coins]
      exact hmoved₁.trans hmoved₂

/-- Undo records for three inputs: `oneCoin` back at output 0 of `onesHash`, which the
cache has spent; `threeCoin` at output 2, which the database still holds; and an
`OP_RETURN` coin at output 1 of the transaction zero. -/
def threeUndos : List (CTxIn × Coin) :=
  [(⟨⟨onesHash, 0⟩, [], SEQUENCE_FINAL, ⟨[]⟩⟩, oneCoin), (⟨⟨onesHash, 2⟩, [], SEQUENCE_FINAL, ⟨[]⟩⟩, threeCoin),
    (⟨⟨UInt256.zero, 1⟩, [], SEQUENCE_FINAL, ⟨[]⟩⟩, ⟨⟨0, [OP_RETURN]⟩, false, 1⟩)]

omit hV in
/-- Putting back `threeUndos` is unclean: the cache still reports `threeCoin`. -/
theorem restoreInputsLoop_run_spentFreshCache :
    (threeUndos.all fun e => ((cacheTop dbTop spentFreshCache).coins e.1.prevout).isNone) = false ∧
    ∃ p', (restoreInputsLoop CCoinsViewDB.view threeUndos).run.run spentFreshCache =
        (.ok (some (threeUndos.all fun e => ((cacheTop dbTop spentFreshCache).coins e.1.prevout).isNone)), p') ∧
      CacheMoved dbTop (fun _ => []) DBInv spentFreshCache p'
        (applyWrites (cacheTop dbTop spentFreshCache).coins (threeUndos.flatMap fun e =>
          if IsUnspendable e.2.out.scriptPubKey then [] else [(e.1.prevout, some e.2)])) :=
  ⟨by decide, restoreInputsLoop_run db_lawful threeUndos spentFreshCache spentFreshCache_inv (by decide)
    (by decide)⟩

/-- Disconnecting a transaction from the set its connection left, with the undo record
`UpdateCoins` filled unless it is a coinbase: every output and input is clean, and the
cache gives back the set before the connection. -/
theorem disconnectTx_connected (p : CCoinsViewCache × σ) (hinv : cacheInv top Inv p) {m : UtxoMap}
    {tx : CTransaction} {nHeight : Nat} (hc : Connectable Hash m tx nHeight) (hm : CoinsSound m)
    (hp : (cacheTop top p).coins = applyWrites m (tx.connectWrites Hash nHeight))
    (txundo? : Option CTxUndo) (hundo : txundo? = if tx.IsCoinBase then none else some ⟨tx.undoCoins m⟩) :
    ∃ p', (disconnectTx base Hash nHeight tx txundo?).run.run p = (.ok (some true), p') ∧
      CacheMoved top below Inv p p' m := by
  -- the outputs are there as the connection wrote them
  have hout : ((tx.outputWrites Hash nHeight).all fun w => decide ((cacheTop top p).coins w.1 = w.2)) = true := by
    refine List.all_eq_true.mpr fun w hw => decide_eq_true ?_
    rw [hp, CTransaction.connectWrites, applyWrites_append]
    exact applyWrites_of_mem _ hc.outputs_nodup hw
  obtain ⟨p₁, hrun₁, hmoved₁⟩ := spendOutputsLoop_run hV (tx.GetHash Hash) tx.IsCoinBase nHeight 0 tx.vout p
    hinv hc.outputs_unspent hc.outputs_nodup
  rw [← CTransaction.outputWrites] at hrun₁ hmoved₁
  have hm₁ : applyWrites (cacheTop top p).coins ((tx.outputWrites Hash nHeight).map fun w => (w.1, none)) =
      applyWrites m tx.inputWrites := by
    rw [hp, CTransaction.connectWrites, applyWrites_append]
    exact applyWrites_erase_outputs hc
  rw [hm₁] at hmoved₁
  cases hcb : tx.IsCoinBase with
  | true =>
    simp only [hcb, if_true] at hundo
    subst hundo
    have hinputs : applyWrites m tx.inputWrites = m := by
      simp only [CTransaction.inputWrites, hcb, if_true, applyWrites_nil]
    rw [hinputs] at hmoved₁
    refine ⟨p₁, ?_, hmoved₁⟩
    rw [disconnectTx, run_liftM_bind, hrun₁, hout]
    rfl
  | false =>
    simp only [hcb, Bool.false_eq_true, if_false] at hundo
    subst hundo
    -- the coins put back are the coins the inputs spent, sound, at distinct outpoints
    have hmem : ∀ e ∈ (tx.vin.zip (tx.undoCoins m)).reverse, ∃ coin, m e.1.prevout = some coin ∧ e.2 = coin := by
      intro e he
      rw [List.mem_reverse, zip_undoCoins hcb, List.mem_map] at he
      obtain ⟨txin, htxin, rfl⟩ := he
      obtain ⟨coin, hcoin⟩ := Option.isSome_iff_exists.mp (hc.inputs_present hcb txin htxin)
      exact ⟨coin, hcoin, by rw [hcoin, Option.getD_some]⟩
    have hsound : ∀ e ∈ (tx.vin.zip (tx.undoCoins m)).reverse,
        e.2.IsSpent = false ∧ IsUnspendable e.2.out.scriptPubKey = false ∧ e.2.nHeight ≠ 0 := by
      intro e he
      obtain ⟨coin, hcoin, he2⟩ := hmem e he
      rw [he2]
      exact hm _ _ hcoin
    have hnodup : ((tx.vin.zip (tx.undoCoins m)).reverse.map fun e => e.1.prevout).Nodup := by
      rw [zip_undoCoins hcb, List.map_reverse, List.map_map, List.nodup_reverse]
      exact hc.inputs_nodup hcb
    obtain ⟨p₂, hrun₂, hmoved₂⟩ := restoreInputsLoop_run hV _ p₁ hmoved₁.inv hnodup
      fun e he => ⟨(hsound e he).2.2, (hsound e he).1⟩
    -- the inputs were spent: the cache reports none of them
    have hin : ((tx.vin.zip (tx.undoCoins m)).reverse.all fun e => ((cacheTop top p₁).coins e.1.prevout).isNone) = true := by
      refine List.all_eq_true.mpr fun e he => ?_
      rw [hmoved₁.coins, CTransaction.inputWrites, if_neg (by rw [hcb]; decide), Option.isNone_iff_eq_none]
      rw [List.mem_reverse, zip_undoCoins hcb, List.mem_map] at he
      obtain ⟨txin, htxin, rfl⟩ := he
      refine applyWrites_of_mem m ?_ (List.mem_map_of_mem (f := fun txin : CTxIn => (txin.prevout, none)) htxin)
      rw [spendWrites_keys]
      exact hc.inputs_nodup hcb
    have hput : ((tx.vin.zip (tx.undoCoins m)).reverse.flatMap fun e =>
        if IsUnspendable e.2.out.scriptPubKey then [] else [(e.1.prevout, some e.2)]) =
        (tx.vin.zip (tx.undoCoins m)).reverse.map fun e => (e.1.prevout, some e.2) := by
      rw [List.map_eq_flatMap]
      exact List.flatMap_congr fun e he => by rw [if_neg (by rw [(hsound e he).2.1]; decide)]
    rw [hmoved₁.coins, hput, applyWrites_restore_inputs hc] at hmoved₂
    refine ⟨p₂, ?_, hmoved₁.trans hmoved₂⟩
    have hlen : (tx.undoCoins m).length = tx.vin.length := by
      simp only [CTransaction.undoCoins, hcb, Bool.false_eq_true, if_false, List.length_map]
    rw [disconnectTx, run_liftM_bind, hrun₁]
    dsimp only
    rw [if_neg (by rw [hlen]; exact fun h => h rfl), run_bind_of_ok hrun₂, hin, hout]
    rfl

omit hV in
/-- A transaction disconnected clean hands the rest of the loop its state. -/
theorem disconnectLoop_cons_of_clean {nHeight : Nat} {tx : CTransaction} {txundo? : Option CTxUndo}
    {rest : List (CTransaction × Option CTxUndo)} {p p₁ : CCoinsViewCache × σ}
    (h : (disconnectTx base Hash nHeight tx txundo?).run.run p = (.ok (some true), p₁)) :
    (disconnectLoop base Hash nHeight ((tx, txundo?) :: rest)).run.run p =
      (disconnectLoop base Hash nHeight rest).run.run p₁ := by
  have hid : (fun r : Option Bool => (pure (r.map (true && ·)) : CoinsM (CCoinsViewCache × σ) (Option Bool))) =
      pure :=
    funext fun r => by cases r <;> rfl
  rw [disconnectLoop, run_bind_of_ok h]
  dsimp only
  rw [hid, bind_pure]

/-- Disconnecting, the last first, transactions other than coinbases connected in order
to the set `m`, with the undo records their connection filled: each is clean, and the
cache reports `m` again for the rest of the loop. -/
theorem disconnectLoop_connected {nHeight : Nat} (hh : nHeight ≠ 0) :
    ∀ (txs : List CTransaction) (m : UtxoMap) (p : CCoinsViewCache × σ)
      (rest : List (CTransaction × Option CTxUndo)), cacheInv top Inv p →
      ConnectableTxs Hash nHeight m txs → CoinsSound m → (∀ tx ∈ txs, tx.IsCoinBase = false) →
      (cacheTop top p).coins = connectedCoins Hash nHeight m txs →
      ∃ p', (disconnectLoop base Hash nHeight
          ((txs.zip ((undoRecords Hash nHeight m txs).map some)).reverse ++ rest)).run.run p =
          (disconnectLoop base Hash nHeight rest).run.run p' ∧ CacheMoved top below Inv p p' m
  | [], m, p, _, hinv, _, _, _, hp => by
    have hp' : (cacheTop top p).coins = m := hp
    exact ⟨p, rfl, hp' ▸ CacheMoved.refl hinv⟩
  | tx :: txs, m, p, rest, hinv, hconn, hm, hcb, hp => by
    have hcb₀ : tx.IsCoinBase = false := hcb tx List.mem_cons_self
    -- the later transactions are disconnected first, back to the set `tx` left
    obtain ⟨p₁, hrun₁, hmoved₁⟩ := disconnectLoop_connected hh txs _ p ((tx, some ⟨tx.undoCoins m⟩) :: rest)
      hinv hconn.2 (hconn.1.coinsSound hm hh) (fun t ht => hcb t (List.mem_cons_of_mem _ ht)) hp
    obtain ⟨p₂, hrun₂, hmoved₂⟩ := disconnectTx_connected hV p₁ hmoved₁.inv hconn.1 hm hmoved₁.coins
      (some ⟨tx.undoCoins m⟩) (by rw [hcb₀]; rfl)
    refine ⟨p₂, ?_, hmoved₁.trans hmoved₂⟩
    have hsplit : ((tx :: txs).zip ((undoRecords Hash nHeight m (tx :: txs)).map some)).reverse ++ rest =
        (txs.zip ((undoRecords Hash nHeight (applyWrites m (tx.connectWrites Hash nHeight)) txs).map some)).reverse ++
          (tx, some ⟨tx.undoCoins m⟩) :: rest := by
      rw [undoRecords, List.map_cons, List.zip_cons_cons, List.reverse_cons, List.append_assoc]
      rfl
    rw [hsplit, hrun₁, disconnectLoop_cons_of_clean hrun₂]

/-- `DisconnectBlock` of a block connected at its height to the set `m`, with the undo
data of that connection: `DISCONNECT_OK`, and the cache reports `m` again, at the best
block before it. -/
theorem DisconnectBlock_connected (p : CCoinsViewCache × σ) (hinv : cacheInv top Inv p) {m : UtxoMap}
    (block : CBlock) (pindex pprev : CBlockIndex) (hprev : pindex.pprev = some pprev)
    (hh : pindex.nHeight ≠ 0) (coinbase : CTransaction) (txs : List CTransaction)
    (hvtx : block.vtx = coinbase :: txs) (hcb : coinbase.IsCoinBase = true)
    (hcbs : ∀ tx ∈ txs, tx.IsCoinBase = false)
    (hconn : ConnectableTxs Hash pindex.nHeight m block.vtx) (hm : CoinsSound m)
    (hp : (cacheTop top p).coins = connectedCoins Hash pindex.nHeight m block.vtx) :
    ∃ p', (DisconnectBlock base Hash block (some ⟨(undoRecords Hash pindex.nHeight m block.vtx).tail⟩)
        pindex).run.run p = (.ok .DISCONNECT_OK, p') ∧
      cacheTop top p' = ⟨m, pprev.GetBlockHash⟩ ∧ cacheBelow top below p' = cacheBelow top below p ∧
      cacheInv top Inv p' := by
  rw [hvtx] at hconn hp
  -- the other transactions first, then the coinbase, which has no undo record
  obtain ⟨p₁, hrun₁, hmoved₁⟩ := disconnectLoop_connected hV hh txs _ p [(coinbase, none)] hinv hconn.2
    (hconn.1.coinsSound hm hh) hcbs hp
  obtain ⟨⟨c₂, s₂⟩, hrun₂, hmoved₂⟩ := disconnectTx_connected hV p₁ hmoved₁.inv hconn.1 hm hmoved₁.coins none
    (by rw [hcb]; rfl)
  have hloop : (disconnectLoop base Hash pindex.nHeight
      ((coinbase :: txs).zip (none :: (undoRecords Hash pindex.nHeight m (coinbase :: txs)).tail.map some)).reverse).run.run p =
      (.ok (some true), (c₂, s₂)) := by
    rw [undoRecords, List.tail_cons, List.zip_cons_cons, List.reverse_cons, hrun₁,
      disconnectLoop_cons_of_clean hrun₂]
    rfl
  have hsize : ¬((undoRecords Hash pindex.nHeight m (coinbase :: txs)).tail.length + 1 ≠ (coinbase :: txs).length) := by
    rw [List.length_tail, undoRecords_length, List.length_cons]
    exact fun h => h rfl
  have hmoved := hmoved₁.trans hmoved₂
  refine ⟨({ c₂ with hashBlock := pprev.GetBlockHash }, s₂), ?_, ?_, hmoved.below_eq, hmoved.inv⟩
  · rw [DisconnectBlock]
    dsimp only
    rw [hvtx, if_neg hsize, run_bind_of_ok hloop]
    dsimp only
    rw [hprev]
    rfl
  · show (⟨(cacheTop top (c₂, s₂)).coins, _⟩ : RefLayer) = _
    rw [hmoved.coins]

end LawfulParent

/-- A coinbase without outputs. -/
def emptyCoinbase : CTransaction :=
  ⟨[⟨⟨UInt256.zero, 0xffffffff⟩, [1, 2], SEQUENCE_FINAL, ⟨[]⟩⟩], [], 2, 0⟩

/-- The block of `emptyCoinbase` and `spendTx`. -/
def spendBlock : CBlock :=
  ⟨⟨0, 0, UInt256.zero, UInt256.zero, UInt256.zero, 0, 0, UInt256.zero, []⟩, [emptyCoinbase, spendTx]⟩

/-- A block index at height 2. -/
def heightTwoIndex : CBlockIndex :=
  ⟨⟨UInt256.zero, 0, 0, 0, 0⟩, [⟨onesHash, 0, 0, 0, 0⟩, ⟨UInt256.zero, 0, 0, 0, 0⟩]⟩

/-- The database after `spendBlock`: the output of `spendTx`. -/
def spentDB : CCoinsViewDB := singleCoinDB ⟨UInt256.zero, 0⟩ ⟨⟨1, [0x51]⟩, false, 2⟩ UInt256.zero

theorem spendBlock_connectable :
    ConnectableTxs (fun _ => UInt256.zero) heightTwoIndex.nHeight (cacheTop dbTop oneCoinCache).coins
      spendBlock.vtx := by
  have hcb : emptyCoinbase.connectWrites (fun _ => UInt256.zero) 2 = [] := by decide
  refine ⟨⟨fun h => absurd h (by decide), fun h => absurd h (by decide), by decide, by decide, by decide⟩,
    ?_, trivial⟩
  show Connectable _ (applyWrites _ (emptyCoinbase.connectWrites (fun _ => UInt256.zero) 2)) spendTx 2
  rw [hcb, applyWrites_nil]
  exact spendTx_connectable

theorem spentDB_coins :
    (cacheTop dbTop (CCoinsViewCache.init, spentDB)).coins = connectedCoins (fun _ => UInt256.zero)
      heightTwoIndex.nHeight (cacheTop dbTop oneCoinCache).coins spendBlock.vtx := by
  have hcb : emptyCoinbase.connectWrites (fun _ => UInt256.zero) 2 = [] := by decide
  have hspend : spendTx.connectWrites (fun _ => UInt256.zero) 2 =
      [(⟨onesHash, 0⟩, none), (⟨UInt256.zero, 0⟩, some ⟨⟨1, [0x51]⟩, false, 2⟩)] := by decide
  funext o
  show _ = connectedCoins _ 2 _ [emptyCoinbase, spendTx] o
  rw [connectedCoins, connectedCoins, connectedCoins, hcb, hspend, applyWrites_nil, applyWrites_cons,
    applyWrites_cons, applyWrites_nil, spentDB, singleCoinDB_coins]
  by_cases h₁ : o = ⟨UInt256.zero, 0⟩
  · rw [if_pos h₁, h₁, Function.update_self]
  · rw [if_neg h₁, Function.update_of_ne h₁]
    by_cases h₀ : o = ⟨onesHash, 0⟩
    · rw [h₀, Function.update_self]
    · rw [Function.update_of_ne h₀, oneCoinCache, oneCoinDB, singleCoinDB_coins, if_neg h₀]

/-- Disconnecting `spendBlock` gives back `oneCoin`. -/
theorem DisconnectBlock_connected_spendBlock :
    ∃ p', (DisconnectBlock CCoinsViewDB.view (fun _ => UInt256.zero) spendBlock
        (some ⟨(undoRecords (fun _ => UInt256.zero) heightTwoIndex.nHeight (cacheTop dbTop oneCoinCache).coins
          spendBlock.vtx).tail⟩) heightTwoIndex).run.run (CCoinsViewCache.init, spentDB) =
        (.ok .DISCONNECT_OK, p') ∧
      cacheTop dbTop p' = ⟨(cacheTop dbTop oneCoinCache).coins,
        CBlockIndex.GetBlockHash ⟨⟨onesHash, 0, 0, 0, 0⟩, [⟨UInt256.zero, 0, 0, 0, 0⟩]⟩⟩ ∧
      cacheBelow dbTop (fun _ => []) p' = cacheBelow dbTop (fun _ => []) (CCoinsViewCache.init, spentDB) ∧
      cacheInv dbTop DBInv p' :=
  DisconnectBlock_connected db_lawful (CCoinsViewCache.init, spentDB) (singleCoinDB_inv (by decide) _)
    spendBlock heightTwoIndex _ rfl (by decide) emptyCoinbase [spendTx] rfl (by decide) (by decide)
    spendBlock_connectable oneCoinDB_sound spentDB_coins

end BitcoinPQ

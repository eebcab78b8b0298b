import BitcoinPQ.Core.MapFold
import BitcoinPQ.Core.Relax
import BitcoinPQ.Models.Script.Script

/-!
# The coins cache

`coins.h` and `coins.cpp`. A `Coin` is an output with the height of its block and
whether a coinbase created it. A `CCoinsViewCache` keeps entries over a parent view,
each with the flags `DIRTY` (the entry may differ from the parent's) and `FRESH` (the
parent has no unspent coin there). The parent of a cache is any `CCoinsView`: another
cache, or at the bottom of the node's stack the database `CCoinsViewDB`, modelled by
the coins it stores and its best block.

`std::unordered_map` is an association list; the loops over a whole map
(`BatchWrite`) are passes of `MapFold`, and their order does not matter since each
entry touches its own key. A `std::logic_error` or a failed `assert` ends the run with
a `CoinsError`. Left out: the memory accounting of `cachedCoinsUsage`, the database's
crash-recovery head blocks, batching, and cursors.
-/

namespace BitcoinPQ

open Relax MapFold

/-- `Coin`: an unspent output, whether a coinbase created it, and its block height. -/
structure Coin where
  out : CTxOut
  fCoinBase : Bool
  nHeight : Nat
  deriving DecidableEq

/-- `Coin()`, and a coin after `Clear()`: no output. -/
def Coin.empty : Coin := ⟨CTxOut.null, false, 0⟩

/-- `Coin::IsSpent`. -/
def Coin.IsSpent (coin : Coin) : Bool := coin.out.IsNull

/-- `CScript::IsUnspendable`: an `OP_RETURN` script, or one over the size limit. -/
def IsUnspendable (script : CScript) : Bool :=
  (script.length > 0 && script.head? == some OP_RETURN) || script.length > MAX_SCRIPT_SIZE

/-- `CCoinsCacheEntry`, with the two bits of its `flags`. -/
structure CCoinsCacheEntry where
  coin : Coin
  /-- `DIRTY`: the entry may differ from the version in the parent view. -/
  dirty : Bool
  /-- `FRESH`: the parent view has no unspent coin for this outpoint. -/
  fresh : Bool
  deriving DecidableEq

/-- `CCoinsCacheEntry()`: a spent coin and no flags. -/
def CCoinsCacheEntry.empty : CCoinsCacheEntry := ⟨Coin.empty, false, false⟩

/-- `CCoinsMap`. -/
abbrev CCoinsMap := AList fun _ : COutPoint => CCoinsCacheEntry

/-- What ends a run: a `std::logic_error`, or a failed `assert`. -/
inductive CoinsError
  | logic_error (what : String)
  | assertion (expr : String)
  deriving DecidableEq

/-- The coins code runs with its state, and may throw or abort. -/
abbrev CoinsM (σ : Type) := ExceptT CoinsError (StateM σ)

/-- `CCoinsView`: what a cache calls of its parent. `GetCoin` gives the coin it found. -/
structure CCoinsView (σ : Type) where
  GetCoin : COutPoint → StateM σ (Option Coin)
  BatchWrite : CCoinsMap → UInt256 → CoinsM σ Bool

/-- `CCoinsViewCache`, without its parent, which lives in the state beside it. -/
structure CCoinsViewCache where
  hashBlock : UInt256
  cacheCoins : CCoinsMap

/-- `CCoinsViewCache(baseIn)`: no entries and a null best block. -/
def CCoinsViewCache.init : CCoinsViewCache := ⟨UInt256.zero, ∅⟩

/-! ## One merged entry

The body of the loop of `CCoinsViewCache::BatchWrite`: the parent's entry for an
outpoint, from the child's entry and the parent's own. -/

/-- The parent's new entry for an outpoint where the child has `child`. -/
def batchWriteEntry (child : CCoinsCacheEntry) :
    Option CCoinsCacheEntry → Except CoinsError (Option CCoinsCacheEntry)
  | us =>
    -- non-dirty entries are ignored
    if !child.dirty then pure us else
    match us with
    | none =>
      -- fresh and pruned in the child: the parent need not hear of it
      if child.fresh && child.coin.IsSpent then pure none
      -- otherwise created in the parent, fresh there when fresh in the child
      else pure (some ⟨child.coin, true, child.fresh⟩)
    | some us =>
      if child.fresh && !us.coin.IsSpent then
        throw (.logic_error
          "FRESH flag misapplied to cache entry for base transaction with spendable outputs")
      -- the grandparent has no entry and the child prunes it: delete it from the parent
      else if us.fresh && child.coin.IsSpent then pure none
      -- a normal modification; the child's FRESH is not copied
      else pure (some { us with coin := child.coin, dirty := true })

/-- The body of the loop of `CCoinsViewDB::BatchWrite`: dirty entries are written,
spent ones as an erase. -/
def dbWriteEntry (entry : CCoinsCacheEntry) : Option Coin → Except CoinsError (Option Coin)
  | old => pure (if !entry.dirty then old else if entry.coin.IsSpent then none else some entry.coin)

/-! ## The cache over a parent -/

section Cache

variable {σ : Type} (base : CCoinsView σ)

namespace CCoinsViewCache

/-- `FetchCoin`: the entry for `outpoint`, copied from the parent when not cached. -/
def FetchCoin (outpoint : COutPoint) : StateM (CCoinsViewCache × σ) (Option CCoinsCacheEntry) :=
  fun (c, s) =>
    match c.cacheCoins.lookup outpoint with
    | some entry => (some entry, (c, s))
    | none =>
      match (base.GetCoin outpoint).run s with
      | (none, s) => (none, (c, s))
      | (some tmp, s) =>
        -- the parent only has an empty entry for this outpoint: ours is fresh
        let entry : CCoinsCacheEntry := ⟨tmp, false, tmp.IsSpent⟩
        (some entry, ({ c with cacheCoins := c.cacheCoins.insert outpoint entry }, s))

/-- `GetCoin`: the coin of the entry, when it is unspent. -/
def GetCoin (outpoint : COutPoint) : StateM (CCoinsViewCache × σ) (Option Coin) := do
  match ← FetchCoin base outpoint with
  | some entry => pure (if entry.coin.IsSpent then none else some entry.coin)
  | none => pure none

/-- `HaveCoin`. -/
def HaveCoin (outpoint : COutPoint) : StateM (CCoinsViewCache × σ) Bool := do
  match ← FetchCoin base outpoint with
  | some entry => pure !entry.coin.IsSpent
  | none => pure false

/-- `AccessCoin`: the coin of the entry, or the empty coin. -/
def AccessCoin (outpoint : COutPoint) : StateM (CCoinsViewCache × σ) Coin := do
  match ← FetchCoin base outpoint with
  | some entry => pure entry.coin
  | none => pure Coin.empty

/-- `HaveCoinInCache`: an unspent coin among the entries, without asking the parent. -/
def HaveCoinInCache (c : CCoinsViewCache) (outpoint : COutPoint) : Bool :=
  match c.cacheCoins.lookup outpoint with
  | some entry => !entry.coin.IsSpent
  | none => false

/-- `AddCoin`. An unspendable output is not added. -/
def AddCoin (outpoint : COutPoint) (coin : Coin) (possible_overwrite : Bool) :
    CoinsM (CCoinsViewCache × σ) Unit := do
  failIf coin.IsSpent (.assertion "!coin.IsSpent()")
  if IsUnspendable coin.out.scriptPubKey then return
  let (c, s) ← get
  -- `emplace` of an empty entry where there is none
  let it := (c.cacheCoins.lookup outpoint).getD CCoinsCacheEntry.empty
  failIf (!possible_overwrite && !it.coin.IsSpent)
    (.logic_error "Adding new coin that replaces non-pruned entry")
  let fresh := !possible_overwrite && !it.dirty
  set ({ c with cacheCoins := c.cacheCoins.insert outpoint ⟨coin, true, it.fresh || fresh⟩ }, s)

/-- `SpendCoin`: the coin moved out, when there is an entry for `outpoint`. A fresh
entry is erased; any other is marked dirty and cleared. -/
def SpendCoin (outpoint : COutPoint) : StateM (CCoinsViewCache × σ) (Option Coin) := do
  match ← FetchCoin base outpoint with
  | none => pure none
  | some entry =>
    modify fun (c, s) =>
      if entry.fresh then ({ c with cacheCoins := c.cacheCoins.erase outpoint }, s)
      else ({ c with cacheCoins := c.cacheCoins.insert outpoint ⟨Coin.empty, true, entry.fresh⟩ }, s)
    pure (some entry.coin)

/-- `Uncache`: drop an entry that carries no flag. -/
def Uncache (outpoint : COutPoint) : StateM (CCoinsViewCache × σ) Unit :=
  modify fun (c, s) =>
    match c.cacheCoins.lookup outpoint with
    | some entry =>
      if !entry.dirty && !entry.fresh then ({ c with cacheCoins := c.cacheCoins.erase outpoint }, s)
      else (c, s)
    | none => (c, s)

/-- `SetBestBlock`. -/
def SetBestBlock (hashBlockIn : UInt256) : StateM (CCoinsViewCache × σ) Unit :=
  modify fun (c, s) => ({ c with hashBlock := hashBlockIn }, s)

/-- `BatchWrite`: merge a child's entries into this cache's, entry by entry. -/
def BatchWrite (mapCoins : CCoinsMap) (hashBlockIn : UInt256) :
    CoinsM (CCoinsViewCache × σ) Bool := do
  let (c, s) ← get
  match mapCoins.entries.foldlM (stepAt fun _ child us => batchWriteEntry child us) c.cacheCoins with
  | .error e => throw e
  | .ok cacheCoins =>
    set ({ c with cacheCoins, hashBlock := hashBlockIn }, s)
    pure true

/-- `Flush`: write the entries to the parent and empty the cache. -/
def Flush : CoinsM (CCoinsViewCache × σ) Bool := do
  let (c, _) ← get
  let fOk ← onSnd (base.BatchWrite c.cacheCoins c.hashBlock)
  modify fun (c, s) => ({ c with cacheCoins := ∅ }, s)
  pure fOk

end CCoinsViewCache

/-- A cache over `base`, seen as the parent of another cache. -/
def CCoinsView.cache : CCoinsView (CCoinsViewCache × σ) where
  GetCoin := CCoinsViewCache.GetCoin base
  BatchWrite := CCoinsViewCache.BatchWrite

end Cache

/-! ## The database at the bottom -/

/-- `CCoinsViewDB`: the unspent coins it stores, and its best block. -/
structure CCoinsViewDB where
  coins : AList fun _ : COutPoint => Coin
  hashBestBlock : UInt256

/-- `CCoinsViewDB::BatchWrite`, which asserts a best block. -/
def CCoinsViewDB.BatchWrite (mapCoins : CCoinsMap) (hashBlock : UInt256) :
    CoinsM CCoinsViewDB Bool := do
  failIf (hashBlock = UInt256.zero) (.assertion "!hashBlock.IsNull()")
  let db ← get
  match mapCoins.entries.foldlM (stepAt fun _ entry old => dbWriteEntry entry old) db.coins with
  | .error e => throw e
  | .ok coins =>
    set { db with coins, hashBestBlock := hashBlock }
    pure true

/-- `CCoinsViewDB` as a parent view. -/
def CCoinsViewDB.view : CCoinsView CCoinsViewDB where
  GetCoin outpoint := fun db => (db.coins.lookup outpoint, db)
  BatchWrite := CCoinsViewDB.BatchWrite

/-! ## A stack of caches

`n` caches over the database, the top one first; an operation names its layer by the
number of layers above it. -/

/-- The state of `n` caches over the database. -/
def StackState : Nat → Type
  | 0 => CCoinsViewDB
  | n + 1 => CCoinsViewCache × StackState n

/-- The view of the top of a stack of `n` caches. -/
def stackView : (n : Nat) → CCoinsView (StackState n)
  | 0 => CCoinsViewDB.view
  | n + 1 => (stackView n).cache

/-- The operations a caller applies to a cache. -/
inductive CacheOp
  | AddCoin (outpoint : COutPoint) (coin : Coin) (possible_overwrite : Bool)
  | SpendCoin (outpoint : COutPoint)
  | AccessCoin (outpoint : COutPoint)
  | GetCoin (outpoint : COutPoint)
  | HaveCoin (outpoint : COutPoint)
  | Uncache (outpoint : COutPoint)
  | Flush
  | SetBestBlock (hashBlock : UInt256)

/-- An operation on a cache over `base`; what it returns is dropped. -/
def CacheOp.exec {σ : Type} (base : CCoinsView σ) : CacheOp → CoinsM (CCoinsViewCache × σ) Unit
  | .AddCoin outpoint coin possible_overwrite =>
    CCoinsViewCache.AddCoin outpoint coin possible_overwrite
  | .SpendCoin outpoint => discard (liftM (CCoinsViewCache.SpendCoin base outpoint))
  | .AccessCoin outpoint => discard (liftM (CCoinsViewCache.AccessCoin base outpoint))
  | .GetCoin outpoint => discard (liftM (CCoinsViewCache.GetCoin base outpoint))
  | .HaveCoin outpoint => discard (liftM (CCoinsViewCache.HaveCoin base outpoint))
  | .Uncache outpoint =>
    liftM (CCoinsViewCache.Uncache outpoint : StateM (CCoinsViewCache × σ) Unit)
  | .Flush => discard (CCoinsViewCache.Flush base)
  | .SetBestBlock hashBlock =>
    liftM (CCoinsViewCache.SetBestBlock hashBlock : StateM (CCoinsViewCache × σ) Unit)

/-- An operation on the layer with `d` layers above it, in a stack of `n` caches. -/
def execAt : (n : Nat) → Nat → CacheOp → CoinsM (StackState n) Unit
  | 0, _, _ => pure ()
  | n + 1, 0, op => op.exec (stackView n)
  | n + 1, d + 1, op => onSnd (execAt n d op)

/-- A sequence of operations, each on its layer. -/
def runOps (n : Nat) : List (Nat × CacheOp) → CoinsM (StackState n) Unit
  | [] => pure ()
  | (d, op) :: ops => do
    execAt n d op
    runOps n ops

end BitcoinPQ

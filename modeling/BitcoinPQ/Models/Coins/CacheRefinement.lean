import BitcoinPQ.Models.Coins.Coins

/-!
# The coins cache refines a map

What a view reports is a map from outpoints to unspent coins. A cache reports its
entries over what its parent reports, and is *coherent* with its parent when its flags
tell the truth: a non-dirty entry is a copy of an unspent coin of the parent, and a
fresh entry sits where the parent has none. Every operation keeps a cache over a
lawful parent coherent and changes what it reports as the operation says, and a
`BatchWrite` from a coherent child never reaches its `logic_error`; so a cache over a
lawful parent is a lawful parent, and by induction so is a stack of caches over the
database. A run that writes only to the top layer keeps the layers of the stack equal
to a reference: one map and best block a layer, which writes change at the top and a
flush copies to the layer below.
-/

namespace BitcoinPQ

open Relax MapFold

/-- The unspent coin at each outpoint. -/
abbrev UtxoMap := COutPoint → Option Coin

/-- A coin as a report: itself when unspent. -/
def Coin.unspent (coin : Coin) : Option Coin := if coin.IsSpent then none else some coin

/-- What a map reports all unspent. -/
def AllUnspent (coins : UtxoMap) : Prop :=
  ∀ outpoint coin, coins outpoint = some coin → coin.IsSpent = false

theorem Coin.unspent_eq_some {coin coin' : Coin} (h : coin.unspent = some coin') :
    coin' = coin ∧ coin.IsSpent = false := by
  unfold Coin.unspent at h
  split_ifs at h with hs
  · cases h
    exact ⟨rfl, by simpa using hs⟩

/-! ## One entry -/

/-- What a cache reports at one outpoint: its entry's coin, or the parent's report. -/
def entryView : Option CCoinsCacheEntry → Option Coin → Option Coin
  | some entry, _ => entry.coin.unspent
  | none, parent => parent

/-- The flags of an entry tell the truth about the parent's report `parent`. -/
def EntryCoherent (r : Option CCoinsCacheEntry) (parent : Option Coin) : Prop :=
  ∀ entry, r = some entry →
    (entry.dirty = false →
      entry.fresh = false ∧ entry.coin.IsSpent = false ∧ parent = some entry.coin) ∧
    (entry.fresh = true → parent = none)

theorem EntryCoherent.absent (parent : Option Coin) : EntryCoherent none parent := by
  intro entry h
  cases h

/-- A non-dirty entry reports what the parent reports. -/
theorem EntryCoherent.view_of_not_dirty {entry : CCoinsCacheEntry} {parent : Option Coin}
    (h : EntryCoherent (some entry) parent) (hd : entry.dirty = false) :
    entryView (some entry) parent = parent := by
  obtain ⟨_, hs, hp⟩ := (h entry rfl).1 hd
  rw [entryView, Coin.unspent, if_neg (by simpa using hs), hp]

/-- A fresh entry sits where the parent reports nothing. -/
theorem EntryCoherent.parent_of_fresh {entry : CCoinsCacheEntry} {parent : Option Coin}
    (h : EntryCoherent (some entry) parent) (hf : entry.fresh = true) : parent = none :=
  (h entry rfl).2 hf

/-- A dirty entry says nothing of the parent but where it is fresh. -/
theorem EntryCoherent.of_dirty {entry : CCoinsCacheEntry} {parent : Option Coin}
    (hd : entry.dirty = true) (hf : entry.fresh = true → parent = none) :
    EntryCoherent (some entry) parent := by
  rintro e ⟨⟩
  refine ⟨fun h => ?_, hf⟩
  rw [hd] at h
  cases h

/-- The merge of a child's entry into its parent's, where both are coherent: no
`logic_error`, and the parent reports afterwards what the child reported. -/
theorem batchWriteEntry_ok {child : CCoinsCacheEntry} {us : Option CCoinsCacheEntry}
    {parent : Option Coin} (hus : EntryCoherent us parent)
    (hchild : EntryCoherent (some child) (entryView us parent)) :
    ∃ r, batchWriteEntry child us = .ok r ∧ entryView r parent = child.coin.unspent ∧
      EntryCoherent r parent := by
  unfold batchWriteEntry
  cases hd : child.dirty with
  | false =>
    -- a copy of what the parent's side reports is left alone
    refine ⟨us, rfl, ?_, hus⟩
    rw [← hchild.view_of_not_dirty hd, entryView]
  | true =>
    rw [Bool.not_true, if_neg Bool.false_ne_true]
    cases us with
    | none =>
      dsimp only
      by_cases hfs : (child.fresh && child.coin.IsSpent) = true
      · rw [if_pos hfs]
        obtain ⟨hf, hs⟩ := Bool.and_eq_true_iff.mp hfs
        refine ⟨none, rfl, ?_, EntryCoherent.absent parent⟩
        rw [entryView, Coin.unspent, if_pos hs]
        exact hchild.parent_of_fresh hf
      · rw [if_neg hfs]
        refine ⟨_, rfl, rfl, EntryCoherent.of_dirty rfl fun hf => ?_⟩
        exact hchild.parent_of_fresh hf
    | some us =>
      dsimp only
      -- the child is fresh only where the parent's side reports nothing
      have hspent : (child.fresh && !us.coin.IsSpent) = false := by
        cases hf : child.fresh with
        | false => rfl
        | true =>
          have hnone := hchild.parent_of_fresh hf
          simp only [entryView, Coin.unspent] at hnone
          split_ifs at hnone with hs
          simpa using hs
      rw [hspent, if_neg Bool.false_ne_true]
      by_cases hprune : (us.fresh && child.coin.IsSpent) = true
      · rw [if_pos hprune]
        obtain ⟨hf, hs⟩ := Bool.and_eq_true_iff.mp hprune
        refine ⟨none, rfl, ?_, EntryCoherent.absent parent⟩
        rw [entryView, Coin.unspent, if_pos hs]
        exact hus.parent_of_fresh hf
      · rw [if_neg hprune]
        refine ⟨_, rfl, rfl, EntryCoherent.of_dirty rfl fun hf => ?_⟩
        exact hus.parent_of_fresh hf

/-- The database's write of one entry: it then stores what the child reported. -/
theorem dbWriteEntry_eq {entry : CCoinsCacheEntry} {old : Option Coin}
    (h : EntryCoherent (some entry) old) : dbWriteEntry entry old = .ok entry.coin.unspent := by
  unfold dbWriteEntry
  cases hd : entry.dirty with
  | false =>
    obtain ⟨_, hs, hp⟩ := (h entry rfl).1 hd
    rw [hp, Coin.unspent, hs]
    rfl
  | true =>
    simp only [Bool.not_true, Bool.false_eq_true, if_false, Coin.unspent]
    rfl

theorem Coin.empty_IsSpent : Coin.empty.IsSpent = true := by decide

/-- The guard of `AddCoin`: where the cache reports no coin, the entry found or
emplaced there is spent, so a new coin may go in without `possible_overwrite`. -/
theorem addCoin_guard {r : Option CCoinsCacheEntry} {parent : Option Coin} {ow : Bool}
    (how : ow = false → entryView r parent = none) :
    (!ow && !(r.getD CCoinsCacheEntry.empty).coin.IsSpent) = false := by
  cases ow with
  | true => rfl
  | false =>
    have hnone := how rfl
    cases r with
    | none => simp only [Option.getD_none, CCoinsCacheEntry.empty, Coin.empty_IsSpent, Bool.not_true,
        Bool.and_false]
    | some entry =>
      simp only [entryView, Coin.unspent] at hnone
      split_ifs at hnone with hs
      simp only [Option.getD_some, hs, Bool.not_true, Bool.and_false]

/-- The entry `AddCoin` writes is coherent: it is dirty, and fresh only over a fresh
entry, or where nothing is overwritten and the parent reports nothing. -/
theorem addCoin_coherent {r : Option CCoinsCacheEntry} {parent : Option Coin} {ow : Bool}
    (coin : Coin) (hr : EntryCoherent r parent) (how : ow = false → entryView r parent = none) :
    EntryCoherent (some ⟨coin, true, (r.getD CCoinsCacheEntry.empty).fresh ||
      (!ow && !(r.getD CCoinsCacheEntry.empty).dirty)⟩) parent := by
  refine EntryCoherent.of_dirty rfl fun hf => ?_
  cases r with
  | none =>
    have how' : ow = false := by simpa [CCoinsCacheEntry.empty] using hf
    exact how how'
  | some entry =>
    simp only [Option.getD_some, Bool.or_eq_true, Bool.and_eq_true, Bool.not_eq_true'] at hf
    rcases hf with hf | ⟨how', hd⟩
    · exact hr.parent_of_fresh hf
    · rw [← hr.view_of_not_dirty hd]
      exact how how'

/-! ## Whole maps -/

/-- What a cache map reports over a parent that reports `parent`. -/
def CCoinsMap.view (m : CCoinsMap) (parent : UtxoMap) : UtxoMap :=
  fun outpoint => entryView (m.lookup outpoint) (parent outpoint)

/-- The flags of `m` tell the truth about `parent`. -/
def CCoinsMap.Coherent (m : CCoinsMap) (parent : UtxoMap) : Prop :=
  ∀ outpoint, EntryCoherent (m.lookup outpoint) (parent outpoint)

@[simp] theorem CCoinsMap.view_empty (parent : UtxoMap) : (∅ : CCoinsMap).view parent = parent := by
  funext outpoint
  rfl

theorem CCoinsMap.coherent_empty (parent : UtxoMap) : (∅ : CCoinsMap).Coherent parent :=
  fun _ => EntryCoherent.absent _

theorem CCoinsMap.view_insert (m : CCoinsMap) (parent : UtxoMap) (outpoint : COutPoint)
    (entry : CCoinsCacheEntry) :
    CCoinsMap.view (m.insert outpoint entry) parent =
      Function.update (m.view parent) outpoint entry.coin.unspent := by
  funext k
  by_cases hk : k = outpoint
  · subst hk
    rw [Function.update_self, CCoinsMap.view, AList.lookup_insert]
    rfl
  · rw [Function.update_of_ne hk, CCoinsMap.view, CCoinsMap.view, AList.lookup_insert_ne hk]

theorem CCoinsMap.view_erase (m : CCoinsMap) (parent : UtxoMap) (outpoint : COutPoint) :
    CCoinsMap.view (m.erase outpoint) parent =
      Function.update (m.view parent) outpoint (parent outpoint) := by
  funext k
  by_cases hk : k = outpoint
  · subst hk
    rw [Function.update_self, CCoinsMap.view, AList.lookup_erase]
    rfl
  · rw [Function.update_of_ne hk, CCoinsMap.view, CCoinsMap.view, AList.lookup_erase_ne hk]

theorem CCoinsMap.Coherent.insert {m : CCoinsMap} {parent : UtxoMap} (hm : m.Coherent parent)
    {outpoint : COutPoint} {entry : CCoinsCacheEntry}
    (he : EntryCoherent (some entry) (parent outpoint)) :
    CCoinsMap.Coherent (m.insert outpoint entry) parent := by
  intro k
  by_cases hk : k = outpoint
  · subst hk
    rw [AList.lookup_insert]
    exact he
  · rw [AList.lookup_insert_ne hk]
    exact hm k

theorem CCoinsMap.Coherent.erase {m : CCoinsMap} {parent : UtxoMap} (hm : m.Coherent parent)
    (outpoint : COutPoint) : CCoinsMap.Coherent (m.erase outpoint) parent := by
  intro k
  by_cases hk : k = outpoint
  · subst hk
    rw [AList.lookup_erase]
    exact EntryCoherent.absent _
  · rw [AList.lookup_erase_ne hk]
    exact hm k

/-- A coherent cache over a parent that reports unspent coins reports unspent coins. -/
theorem CCoinsMap.allUnspent_view {m : CCoinsMap} {parent : UtxoMap} (hp : AllUnspent parent) :
    AllUnspent (m.view parent) := by
  intro outpoint coin h
  unfold CCoinsMap.view entryView at h
  split at h
  · exact (Coin.unspent_eq_some h).1 ▸ (Coin.unspent_eq_some h).2
  · exact hp outpoint coin h

/-! ## Lawful parents -/

/-- One layer of the reference: the coins it reports and its best block. -/
structure RefLayer where
  coins : UtxoMap
  hashBlock : UInt256

instance : Inhabited RefLayer := ⟨⟨fun _ => none, UInt256.zero⟩⟩

/-! ## The reference

The layers of a stack, the top first: a map and a best block each. A write changes the
map of its layer; a flush copies a layer onto the one beneath it. -/

/-- What `AddCoin` does to the map: the coin goes in, unless its script is unspendable. -/
def RefLayer.addCoin (l : RefLayer) (outpoint : COutPoint) (coin : Coin) : RefLayer :=
  if IsUnspendable coin.out.scriptPubKey then l
  else { l with coins := Function.update l.coins outpoint (some coin) }

/-- What `SpendCoin` does to the map. -/
def RefLayer.spendCoin (l : RefLayer) (outpoint : COutPoint) : RefLayer :=
  { l with coins := Function.update l.coins outpoint none }

/-- An operation on the layer `l`, above the layers `ls`. -/
def CacheOp.refTop : CacheOp → RefLayer → List RefLayer → List RefLayer
  | .AddCoin outpoint coin _, l, ls => l.addCoin outpoint coin :: ls
  | .SpendCoin outpoint, l, ls => l.spendCoin outpoint :: ls
  | .AccessCoin _, l, ls => l :: ls
  | .GetCoin _, l, ls => l :: ls
  | .HaveCoin _, l, ls => l :: ls
  | .Uncache _, l, ls => l :: ls
  | .Flush, l, ls => l :: ls.modifyHead fun _ => l
  | .SetBestBlock hashBlock, l, ls => { l with hashBlock } :: ls

/-- An operation on the layer with `d` layers above it. -/
def refExec : List RefLayer → Nat → CacheOp → List RefLayer
  | [], _, _ => []
  | l :: ls, 0, op => op.refTop l ls
  | l :: ls, d + 1, op => l :: refExec ls d op

/-- A run of operations, each on its layer. -/
def refRun : List RefLayer → List (Nat × CacheOp) → List RefLayer
  | layers, [] => layers
  | layers, (d, op) :: ops => refRun (refExec layers d op) ops

/-- The operations that change a map. -/
def CacheOp.isWrite : CacheOp → Bool
  | .AddCoin .. | .SpendCoin _ => true
  | _ => false

/-- Away from the writes, the map of the top layer stays. -/
theorem refExec_cons_coins {op : CacheOp} (hw : op.isWrite = false) (l : RefLayer)
    (ls : List RefLayer) (d : Nat) :
    ∃ l' ls', refExec (l :: ls) d op = l' :: ls' ∧ l'.coins = l.coins := by
  cases d with
  | succ d => exact ⟨l, _, rfl, rfl⟩
  | zero =>
    cases op
    case AddCoin => cases hw
    case SpendCoin => cases hw
    all_goals exact ⟨_, _, rfl, rfl⟩

/-- What an operation on a cache asks of the layer `l` it acts on, where the parent
accepts the best blocks in `Ready`: `AddCoin` an unspent coin, and no
`possible_overwrite` only where the layer reports no coin; `Flush` a best block the
parent accepts. -/
def CacheOp.AllowedTop (Ready : UInt256 → Prop) (l : RefLayer) : CacheOp → Prop
  | .AddCoin outpoint coin possible_overwrite =>
    coin.IsSpent = false ∧ (possible_overwrite = false → l.coins outpoint = none)
  | .Flush => Ready l.hashBlock
  | _ => True

section Lawful

variable {σ : Type} (top : σ → RefLayer) (below : σ → List RefLayer) (Inv : σ → Prop)

/-- `s'` reports what `s` reports, in every layer, and keeps the invariant. -/
def SameReports (s s' : σ) : Prop := top s' = top s ∧ below s' = below s ∧ Inv s'

/-- A parent view that reports `top s` above the layers `below s`, keeps `Inv`, and
accepts a `BatchWrite` with a best block in `Ready`. -/
structure LawfulView (V : CCoinsView σ) (Ready : UInt256 → Prop) : Prop where
  allUnspent : ∀ s, Inv s → AllUnspent (top s).coins
  GetCoin_run : ∀ s outpoint, Inv s →
    ((V.GetCoin outpoint).run s).1 = (top s).coins outpoint ∧
      SameReports top below Inv s ((V.GetCoin outpoint).run s).2
  BatchWrite_run : ∀ s m hashBlock, Inv s → m.Coherent (top s).coins → Ready hashBlock →
    ∃ fOk s', (V.BatchWrite m hashBlock).run.run s = (.ok fOk, s') ∧
      top s' = ⟨m.view (top s).coins, hashBlock⟩ ∧ below s' = below s ∧ Inv s'

/-- What a cache over a parent reporting `top` reports. -/
def cacheTop (p : CCoinsViewCache × σ) : RefLayer :=
  ⟨p.1.cacheCoins.view (top p.2).coins, p.1.hashBlock⟩

/-- The layers beneath a cache: its parent's report, then the parent's layers. -/
def cacheBelow (p : CCoinsViewCache × σ) : List RefLayer := top p.2 :: below p.2

/-- A cache coherent with its parent, over a parent keeping its invariant. -/
def cacheInv (p : CCoinsViewCache × σ) : Prop :=
  p.1.cacheCoins.Coherent (top p.2).coins ∧ Inv p.2

variable {top below Inv}

/-- A parent step that keeps the parent's reports keeps the cache's. -/
theorem cache_sameReports_of_parent (c : CCoinsViewCache) {s s' : σ} (hinv : cacheInv top Inv (c, s))
    (hs : SameReports top below Inv s s') :
    SameReports (cacheTop top) (cacheBelow top below) (cacheInv top Inv) (c, s) (c, s') := by
  obtain ⟨htop, hbelow, hInv⟩ := hs
  refine ⟨?_, ?_, ?_⟩
  · simp only [cacheTop, htop]
  · simp only [cacheBelow, htop, hbelow]
  · exact ⟨htop ▸ hinv.1, hInv⟩

theorem SameReports.layers {s s' : σ} (h : SameReports top below Inv s s') :
    top s' :: below s' = top s :: below s := by
  rw [h.1, h.2.1]

variable {base : CCoinsView σ} {Ready : UInt256 → Prop} (hV : LawfulView top below Inv base Ready)
include hV

/-- `FetchCoin` finds the entry behind what the cache reports, copying it from the
parent when needed, and changes no report. -/
theorem FetchCoin_run (c : CCoinsViewCache) (s : σ) (hinv : cacheInv top Inv (c, s))
    (outpoint : COutPoint) :
    ∃ r c' s', (CCoinsViewCache.FetchCoin base outpoint).run (c, s) = (r, (c', s')) ∧
      entryView r none = (cacheTop top (c, s)).coins outpoint ∧
      c'.cacheCoins.lookup outpoint = r ∧
      SameReports (cacheTop top) (cacheBelow top below) (cacheInv top Inv) (c, s) (c', s') := by
  rcases hlook : c.cacheCoins.lookup outpoint with _ | entry
  · -- not cached: ask the parent
    obtain ⟨hget, hsame⟩ := hV.GetCoin_run s outpoint hinv.2
    have hview : (cacheTop top (c, s)).coins outpoint = (top s).coins outpoint := by
      simp only [cacheTop, CCoinsMap.view, hlook, entryView]
    rcases hres : (base.GetCoin outpoint).run s with ⟨_ | tmp, s'⟩
    · rw [hres] at hget hsame
      dsimp only at hget hsame
      have hres' : base.GetCoin outpoint s = (none, s') := hres
      refine ⟨none, c, s', ?_, ?_, hlook, cache_sameReports_of_parent c hinv hsame⟩
      · simp only [StateT.run, CCoinsViewCache.FetchCoin, hlook, hres']
      · rw [hview, ← hget]
        rfl
    · rw [hres] at hget hsame
      dsimp only at hget hsame
      have hres' : base.GetCoin outpoint s = (some tmp, s') := hres
      obtain ⟨htop, hbelow, hInv⟩ := hsame
      have hunspent : tmp.IsSpent = false := hV.allUnspent s hinv.2 outpoint tmp hget.symm
      let entry : CCoinsCacheEntry := ⟨tmp, false, tmp.IsSpent⟩
      refine ⟨some entry, { c with cacheCoins := c.cacheCoins.insert outpoint entry }, s', ?_, ?_,
        AList.lookup_insert _, ?_, ?_, ?_⟩
      · simp only [StateT.run, CCoinsViewCache.FetchCoin, hlook, hres']
        rfl
      · rw [hview, ← hget]
        simp only [entryView, Coin.unspent, hunspent, entry]
        rfl
      · -- the copy reports what the parent reported
        simp only [cacheTop, htop, CCoinsMap.view_insert]
        congr 1
        refine Function.update_eq_self_iff.mpr ?_
        simp only [CCoinsMap.view, hlook, entryView, Coin.unspent, hunspent, entry, ← hget]
        rfl
      · simp only [cacheBelow, htop, hbelow]
      · refine ⟨?_, hInv⟩
        dsimp only
        rw [htop]
        refine hinv.1.insert ?_
        rintro e ⟨⟩
        exact ⟨fun _ => ⟨hunspent, hunspent, hget.symm⟩,
          fun h => absurd (h.symm.trans hunspent) (by decide)⟩
  · refine ⟨some entry, c, s, ?_, ?_, hlook, rfl, rfl, hinv⟩
    · simp only [StateT.run, CCoinsViewCache.FetchCoin, hlook]
    · simp only [cacheTop, CCoinsMap.view, hlook, entryView]

/-- `GetCoin` returns what the cache reports, and changes no report. -/
theorem GetCoin_run (c : CCoinsViewCache) (s : σ) (hinv : cacheInv top Inv (c, s))
    (outpoint : COutPoint) :
    ∃ c' s', (CCoinsViewCache.GetCoin base outpoint).run (c, s) =
        ((cacheTop top (c, s)).coins outpoint, (c', s')) ∧
      SameReports (cacheTop top) (cacheBelow top below) (cacheInv top Inv) (c, s) (c', s') := by
  obtain ⟨r, c', s', hrun, hview, _, hsame⟩ := FetchCoin_run hV c s hinv outpoint
  refine ⟨c', s', ?_, hsame⟩
  rw [← hview, CCoinsViewCache.GetCoin, StateT.run_bind, hrun]
  cases r <;> rfl

/-- `HaveCoin` tells whether the cache reports a coin. -/
theorem HaveCoin_run (c : CCoinsViewCache) (s : σ) (hinv : cacheInv top Inv (c, s))
    (outpoint : COutPoint) :
    ∃ c' s', (CCoinsViewCache.HaveCoin base outpoint).run (c, s) =
        (((cacheTop top (c, s)).coins outpoint).isSome, (c', s')) ∧
      SameReports (cacheTop top) (cacheBelow top below) (cacheInv top Inv) (c, s) (c', s') := by
  obtain ⟨r, c', s', hrun, hview, _, hsame⟩ := FetchCoin_run hV c s hinv outpoint
  refine ⟨c', s', ?_, hsame⟩
  rw [← hview, CCoinsViewCache.HaveCoin, StateT.run_bind, hrun]
  rcases r with _ | entry
  · rfl
  · show (!entry.coin.IsSpent, (c', s')) = _
    simp only [entryView, Coin.unspent]
    cases entry.coin.IsSpent <;> rfl

/-- `AccessCoin` returns a coin that reports what the cache reports. -/
theorem AccessCoin_run (c : CCoinsViewCache) (s : σ) (hinv : cacheInv top Inv (c, s))
    (outpoint : COutPoint) :
    ∃ coin c' s', (CCoinsViewCache.AccessCoin base outpoint).run (c, s) = (coin, (c', s')) ∧
      coin.unspent = (cacheTop top (c, s)).coins outpoint ∧
      SameReports (cacheTop top) (cacheBelow top below) (cacheInv top Inv) (c, s) (c', s') := by
  obtain ⟨r, c', s', hrun, hview, _, hsame⟩ := FetchCoin_run hV c s hinv outpoint
  rcases r with _ | entry
  · refine ⟨Coin.empty, c', s', ?_, hview, hsame⟩
    rw [CCoinsViewCache.AccessCoin, StateT.run_bind, hrun]
    rfl
  · refine ⟨entry.coin, c', s', ?_, hview, hsame⟩
    rw [CCoinsViewCache.AccessCoin, StateT.run_bind, hrun]
    rfl

omit hV in
/-- `BatchWrite` of a child coherent with this cache: no `logic_error`, and the cache
then reports what the child reported, coherent with its own parent. -/
theorem BatchWrite_run (c : CCoinsViewCache) (s : σ) (hinv : cacheInv top Inv (c, s))
    (m : CCoinsMap) (hm : m.Coherent (cacheTop top (c, s)).coins) (hashBlockIn : UInt256) :
    ∃ c', (CCoinsViewCache.BatchWrite m hashBlockIn : CoinsM (CCoinsViewCache × σ) Bool).run.run
        (c, s) = (.ok true, (c', s)) ∧ c'.hashBlock = hashBlockIn ∧
      c'.cacheCoins.view (top s).coins = m.view (cacheTop top (c, s)).coins ∧
      c'.cacheCoins.Coherent (top s).coins := by
  -- each entry merges without error, on the value this cache had before
  have hstep : ∀ e ∈ m.entries, ∃ r,
      batchWriteEntry e.2 (c.cacheCoins.lookup e.1) = .ok r := by
    intro e he
    have hlook : m.lookup e.1 = some e.2 := List.mem_dlookup m.nodupKeys he
    have hchild := hm e.1
    rw [hlook] at hchild
    obtain ⟨r, hr, _⟩ := batchWriteEntry_ok (hinv.1 e.1) hchild
    exact ⟨r, hr⟩
  obtain ⟨cacheCoins, hfold⟩ :=
    foldlM_ok_of_forall (fun _ child us => batchWriteEntry child us) m.nodupKeys c.cacheCoins hstep
  -- key by key, the merged map reports what the child reported
  have hkey : ∀ a, entryView (cacheCoins.lookup a) ((top s).coins a) =
      entryView (m.lookup a) ((cacheTop top (c, s)).coins a) ∧
      EntryCoherent (cacheCoins.lookup a) ((top s).coins a) := by
    intro a
    have hat := lookup_of_foldlM_ok (fun _ child us => batchWriteEntry child us) m.nodupKeys hfold a
    unfold atKey at hat
    have hus : EntryCoherent (c.cacheCoins.lookup a) ((top s).coins a) := hinv.1 a
    rcases hlook : m.lookup a with _ | child
    · have hnone : m.entries.dlookup a = none := hlook
      rw [hnone] at hat
      rw [← Except.ok.inj hat]
      exact ⟨rfl, hus⟩
    · have hsome : m.entries.dlookup a = some child := hlook
      rw [hsome] at hat
      have hchild := hm a
      rw [hlook] at hchild
      obtain ⟨r, hr, hview, hcoh⟩ := batchWriteEntry_ok hus hchild
      dsimp only at hat
      rw [hr] at hat
      rw [← Except.ok.inj hat]
      exact ⟨hview, hcoh⟩
  refine ⟨{ c with cacheCoins, hashBlock := hashBlockIn }, ?_, rfl, ?_, fun a => (hkey a).2⟩
  · rw [CCoinsViewCache.BatchWrite, run_get_bind]
    dsimp only
    rw [hfold, run_set_bind]
    rfl
  · funext a
    exact (hkey a).1

/-- A cache over a lawful parent is a lawful parent, accepting any best block. -/
theorem cache_lawful :
    LawfulView (cacheTop top) (cacheBelow top below) (cacheInv top Inv) base.cache fun _ => True where
  allUnspent p hinv := CCoinsMap.allUnspent_view (hV.allUnspent p.2 hinv.2)
  GetCoin_run p outpoint hinv := by
    obtain ⟨c', s', hrun, hsame⟩ := GetCoin_run hV p.1 p.2 hinv outpoint
    refine ⟨?_, ?_⟩
    · exact congrArg Prod.fst hrun
    · rw [show ((base.cache.GetCoin outpoint).run p).2 = (c', s') from congrArg Prod.snd hrun]
      exact hsame
  BatchWrite_run p m hashBlock hinv hm _ := by
    obtain ⟨c', hrun, hhash, hview, hcoh⟩ := BatchWrite_run p.1 p.2 hinv m hm hashBlock
    refine ⟨true, (c', p.2), hrun, ?_, rfl, hcoh, hinv.2⟩
    simp only [cacheTop, hview, hhash]

omit hV in
/-- `AddCoin` of an unspent coin, without `possible_overwrite` only where the cache
reports nothing: no error, and the coin is reported unless its script is unspendable. -/
theorem AddCoin_run (c : CCoinsViewCache) (s : σ) (hinv : cacheInv top Inv (c, s))
    (outpoint : COutPoint) (coin : Coin) (possible_overwrite : Bool)
    (hspent : coin.IsSpent = false)
    (how : possible_overwrite = false → (cacheTop top (c, s)).coins outpoint = none) :
    ∃ c', (CCoinsViewCache.AddCoin outpoint coin possible_overwrite :
        CoinsM (CCoinsViewCache × σ) Unit).run.run (c, s) = (.ok (), (c', s)) ∧
      cacheInv top Inv (c', s) ∧ cacheTop top (c', s) = (cacheTop top (c, s)).addCoin outpoint coin := by
  have hspent' : ¬coin.IsSpent = true := by rw [hspent]; decide
  rw [CCoinsViewCache.AddCoin, failIf_neg _ hspent', pure_bind]
  by_cases hu : IsUnspendable coin.out.scriptPubKey = true
  · -- an unspendable output is dropped
    refine ⟨c, ?_, hinv, ?_⟩
    · rw [if_pos hu]
      rfl
    · rw [RefLayer.addCoin, if_pos hu]
  · have how' : possible_overwrite = false →
        entryView (c.cacheCoins.lookup outpoint) ((top s).coins outpoint) = none := how
    have hguard : ¬(!possible_overwrite &&
        !((c.cacheCoins.lookup outpoint).getD CCoinsCacheEntry.empty).coin.IsSpent) = true := by
      rw [addCoin_guard how']
      decide
    rw [if_neg hu, run_get_bind]
    dsimp only
    rw [failIf_neg _ hguard, pure_bind]
    refine ⟨_, rfl, ⟨hinv.1.insert (addCoin_coherent coin (hinv.1 outpoint) how'), hinv.2⟩, ?_⟩
    have hunspent : coin.unspent = some coin := by rw [Coin.unspent, if_neg hspent']
    simp only [cacheTop, RefLayer.addCoin, if_neg hu, CCoinsMap.view_insert, hunspent]

/-- `SpendCoin`: the coin it moves out is what the cache reported, and afterwards the
cache reports nothing there. -/
theorem SpendCoin_run (c : CCoinsViewCache) (s : σ) (hinv : cacheInv top Inv (c, s))
    (outpoint : COutPoint) :
    ∃ r c' s', (CCoinsViewCache.SpendCoin base outpoint).run (c, s) = (r, (c', s')) ∧
      r.bind Coin.unspent = (cacheTop top (c, s)).coins outpoint ∧ cacheInv top Inv (c', s') ∧
      cacheTop top (c', s') = (cacheTop top (c, s)).spendCoin outpoint ∧
      cacheBelow top below (c', s') = cacheBelow top below (c, s) := by
  obtain ⟨r, c₁, s₁, hrun, hview, hlook, htop, hbelow, hinv₁⟩ := FetchCoin_run hV c s hinv outpoint
  rw [CCoinsViewCache.SpendCoin, StateT.run_bind, hrun]
  rcases r with _ | entry
  · -- nothing to spend, and nothing reported
    refine ⟨none, c₁, s₁, rfl, hview, hinv₁, ?_, hbelow⟩
    have hupd : Function.update (cacheTop top (c, s)).coins outpoint none = (cacheTop top (c, s)).coins :=
      Function.update_eq_self_iff.mpr hview
    rw [htop, RefLayer.spendCoin, hupd]
  · have hcoh : EntryCoherent (some entry) ((top s₁).coins outpoint) := hlook ▸ hinv₁.1 outpoint
    cases hf : entry.fresh with
    | true =>
      -- a fresh entry is erased: the parent has nothing there
      refine ⟨some entry.coin, { c₁ with cacheCoins := c₁.cacheCoins.erase outpoint }, s₁, ?_, hview,
        ⟨hinv₁.1.erase outpoint, hinv₁.2⟩, ?_, hbelow⟩
      · show (some entry.coin, if entry.fresh = true then _ else _) = _
        rw [if_pos hf]
      · rw [← htop]
        simp only [cacheTop, RefLayer.spendCoin, CCoinsMap.view_erase, hcoh.parent_of_fresh hf]
    | false =>
      -- any other is cleared and marked dirty
      refine ⟨some entry.coin,
        { c₁ with cacheCoins := c₁.cacheCoins.insert outpoint ⟨Coin.empty, true, false⟩ }, s₁, ?_,
        hview, ⟨hinv₁.1.insert (EntryCoherent.of_dirty rfl fun h => by cases h), hinv₁.2⟩, ?_, hbelow⟩
      · show (some entry.coin, if entry.fresh = true then _ else _) = _
        rw [if_neg (by rw [hf]; decide), hf]
      · rw [← htop]
        simp only [cacheTop, RefLayer.spendCoin, CCoinsMap.view_insert, Coin.unspent,
          Coin.empty_IsSpent, if_true]

omit hV in
/-- `Uncache` drops only a copy of what the parent reports. -/
theorem Uncache_run (c : CCoinsViewCache) (s : σ) (hinv : cacheInv top Inv (c, s))
    (outpoint : COutPoint) :
    ∃ c', (CCoinsViewCache.Uncache outpoint : StateM (CCoinsViewCache × σ) Unit).run (c, s) =
        ((), (c', s)) ∧
      SameReports (cacheTop top) (cacheBelow top below) (cacheInv top Inv) (c, s) (c', s) := by
  rcases hlook : c.cacheCoins.lookup outpoint with _ | entry
  · refine ⟨c, ?_, rfl, rfl, hinv⟩
    simp only [CCoinsViewCache.Uncache, StateT.run_modify, hlook]
    rfl
  · by_cases hflags : (!entry.dirty && !entry.fresh) = true
    · have hcoh : EntryCoherent (some entry) ((top s).coins outpoint) := hlook ▸ hinv.1 outpoint
      have hd : entry.dirty = false := by simpa using (Bool.and_eq_true_iff.mp hflags).1
      refine ⟨{ c with cacheCoins := c.cacheCoins.erase outpoint }, ?_, ?_, rfl, ⟨hinv.1.erase outpoint, hinv.2⟩⟩
      · simp only [CCoinsViewCache.Uncache, StateT.run_modify, hlook, hflags]
        rfl
      · -- the entry was a copy of the parent's coin
        have hsame : (top s).coins outpoint = (cacheTop top (c, s)).coins outpoint := by
          show _ = entryView (c.cacheCoins.lookup outpoint) _
          rw [hlook, hcoh.view_of_not_dirty hd]
        simp only [cacheTop, CCoinsMap.view_erase, hsame, Function.update_eq_self]
    · refine ⟨c, ?_, rfl, rfl, hinv⟩
      simp only [CCoinsViewCache.Uncache, StateT.run_modify, hlook, hflags]
      rfl

/-- `Flush` into a parent accepting the cache's best block: the parent then reports
what the cache reported, and the cache, empty, reports the same. -/
theorem Flush_run (c : CCoinsViewCache) (s : σ) (hinv : cacheInv top Inv (c, s))
    (hready : Ready c.hashBlock) :
    ∃ fOk s', (CCoinsViewCache.Flush base).run.run (c, s) =
        (.ok fOk, ({ c with cacheCoins := ∅ }, s')) ∧
      cacheInv top Inv ({ c with cacheCoins := ∅ }, s') ∧
      cacheTop top ({ c with cacheCoins := ∅ }, s') = cacheTop top (c, s) ∧
      cacheBelow top below ({ c with cacheCoins := ∅ }, s') = cacheTop top (c, s) :: below s := by
  obtain ⟨fOk, s', hrun, htop, hbelow, hInv⟩ :=
    hV.BatchWrite_run s c.cacheCoins c.hashBlock hinv.2 hinv.1 hready
  have htop' : cacheTop top ({ c with cacheCoins := ∅ }, s') = cacheTop top (c, s) := by
    simp only [cacheTop, CCoinsMap.view_empty, htop]
  refine ⟨fOk, s', ?_, ⟨CCoinsMap.coherent_empty _, hInv⟩, htop', ?_⟩
  · rw [CCoinsViewCache.Flush, run_get_bind]
    dsimp only
    rw [run_bind, run_onSnd, hrun]
    rfl
  · show top s' :: below s' = _
    rw [htop, hbelow]
    rfl

/-- An operation on the top of a cache over a lawful parent, where the reference
allows it: no error, the invariant kept, and the layers changed as the reference says. -/
theorem exec_run (p : CCoinsViewCache × σ) (hinv : cacheInv top Inv p) (op : CacheOp)
    (hallowed : op.AllowedTop Ready (cacheTop top p)) :
    ∃ p', (op.exec base).run.run p = (.ok (), p') ∧ cacheInv top Inv p' ∧
      cacheTop top p' :: cacheBelow top below p' = op.refTop (cacheTop top p) (cacheBelow top below p) := by
  obtain ⟨c, s⟩ := p
  cases op with
  | AddCoin outpoint coin possible_overwrite =>
    obtain ⟨c', hrun, hinv', htop⟩ :=
      AddCoin_run c s hinv outpoint coin possible_overwrite hallowed.1 hallowed.2
    exact ⟨(c', s), hrun, hinv', by rw [htop]; rfl⟩
  | SpendCoin outpoint =>
    obtain ⟨r, c', s', hrun, -, hinv', htop, hbelow⟩ := SpendCoin_run hV c s hinv outpoint
    refine ⟨(c', s'), ?_, hinv', by rw [htop, hbelow]; rfl⟩
    rw [CacheOp.exec, run_discard_liftM, hrun]
  | AccessCoin outpoint =>
    obtain ⟨_, c', s', hrun, -, hsame⟩ := AccessCoin_run hV c s hinv outpoint
    refine ⟨(c', s'), ?_, hsame.2.2, hsame.layers⟩
    rw [CacheOp.exec, run_discard_liftM, hrun]
  | GetCoin outpoint =>
    obtain ⟨c', s', hrun, hsame⟩ := GetCoin_run hV c s hinv outpoint
    refine ⟨(c', s'), ?_, hsame.2.2, hsame.layers⟩
    rw [CacheOp.exec, run_discard_liftM, hrun]
  | HaveCoin outpoint =>
    obtain ⟨c', s', hrun, hsame⟩ := HaveCoin_run hV c s hinv outpoint
    refine ⟨(c', s'), ?_, hsame.2.2, hsame.layers⟩
    rw [CacheOp.exec, run_discard_liftM, hrun]
  | Uncache outpoint =>
    obtain ⟨c', hrun, hsame⟩ := Uncache_run c s hinv outpoint
    refine ⟨(c', s), ?_, hsame.2.2, hsame.layers⟩
    rw [CacheOp.exec, run_liftM, hrun]
  | Flush =>
    obtain ⟨fOk, s', hrun, hinv', htop, hbelow⟩ := Flush_run hV c s hinv hallowed
    refine ⟨_, run_discard_of_ok hrun, hinv', ?_⟩
    rw [htop, hbelow]
    rfl
  | SetBestBlock hashBlock =>
    exact ⟨({ c with hashBlock }, s), rfl, hinv, rfl⟩

end Lawful

/-! ## The database -/

/-- What the database reports: the coins it stores, and its best block. -/
def dbTop (db : CCoinsViewDB) : RefLayer := ⟨fun outpoint => db.coins.lookup outpoint, db.hashBestBlock⟩

/-- The database stores unspent coins only. -/
def DBInv (db : CCoinsViewDB) : Prop := AllUnspent (dbTop db).coins

/-- The database is a lawful parent, accepting a non-null best block. -/
theorem db_lawful :
    LawfulView dbTop (fun _ => []) DBInv CCoinsViewDB.view fun hashBlock => hashBlock ≠ UInt256.zero where
  allUnspent _ hinv := hinv
  GetCoin_run db outpoint hinv := ⟨rfl, rfl, rfl, hinv⟩
  BatchWrite_run db m hashBlock hinv hm hready := by
    have hstep : ∀ e ∈ m.entries, ∃ r, dbWriteEntry e.2 (db.coins.lookup e.1) = .ok r := by
      intro e he
      have hlook : m.lookup e.1 = some e.2 := List.mem_dlookup m.nodupKeys he
      have hchild := hm e.1
      rw [hlook] at hchild
      exact ⟨_, dbWriteEntry_eq hchild⟩
    obtain ⟨coins, hfold⟩ :=
      foldlM_ok_of_forall (fun _ entry old => dbWriteEntry entry old) m.nodupKeys db.coins hstep
    -- key by key, the database stores what the child reported
    have hkey : ∀ a, coins.lookup a = m.view (dbTop db).coins a := by
      intro a
      have hat := lookup_of_foldlM_ok (fun _ entry old => dbWriteEntry entry old) m.nodupKeys hfold a
      unfold atKey at hat
      rcases hlook : m.lookup a with _ | entry
      · have hnone : m.entries.dlookup a = none := hlook
        rw [hnone] at hat
        rw [← Except.ok.inj hat]
        simp only [CCoinsMap.view, hlook, entryView, dbTop]
      · have hsome : m.entries.dlookup a = some entry := hlook
        rw [hsome] at hat
        have hchild : EntryCoherent (some entry) (db.coins.lookup a) := by
          have h := hm a
          rwa [hlook] at h
        dsimp only at hat
        rw [dbWriteEntry_eq hchild] at hat
        rw [← Except.ok.inj hat]
        simp only [CCoinsMap.view, hlook, entryView]
    refine ⟨true, { db with coins, hashBestBlock := hashBlock }, ?_, ?_, rfl, ?_⟩
    · show (CCoinsViewDB.BatchWrite m hashBlock).run.run db = _
      rw [CCoinsViewDB.BatchWrite, failIf_neg _ hready, pure_bind]
      rw [run_get_bind, hfold, run_set_bind]
      rfl
    · simp only [dbTop]
      congr 1
      funext a
      exact hkey a
    · intro a coin h
      have h' : coins.lookup a = some coin := h
      rw [hkey a] at h'
      exact CCoinsMap.allUnspent_view hinv a coin h'

/-- An empty database stores no coin. -/
theorem DBInv.empty (hashBestBlock : UInt256) : DBInv ⟨∅, hashBestBlock⟩ := fun o c h => by
  change (∅ : AList fun _ : COutPoint => Coin).lookup o = some c at h
  rw [AList.lookup_empty] at h
  cases h

/-- Storing an unspent coin keeps the database's coins unspent. -/
theorem DBInv.insert {db : CCoinsViewDB} (hdb : DBInv db) (outpoint : COutPoint) {coin : Coin}
    (hcoin : coin.IsSpent = false) : DBInv { db with coins := db.coins.insert outpoint coin } := by
  intro o c h
  change (db.coins.insert outpoint coin).lookup o = some c at h
  by_cases ho : o = outpoint
  · subst ho
    rw [AList.lookup_insert] at h
    rw [← Option.some.inj h]
    exact hcoin
  · rw [AList.lookup_insert_ne ho] at h
    exact hdb o c h

/-! ## A stack of caches over the database

Layer by layer, what a stack reports: its top cache, then the layers beneath. By
induction on the height, the stack is a lawful parent, so an operation on any of its
layers keeps the invariant; a run, one operation after another, follows the reference. -/

/-- What the top of a stack of `n` caches reports. -/
def stackTop : (n : Nat) → StackState n → RefLayer
  | 0 => dbTop
  | n + 1 => cacheTop (stackTop n)

/-- What the layers beneath the top of a stack report, the database last. -/
def stackBelow : (n : Nat) → StackState n → List RefLayer
  | 0 => fun _ => []
  | n + 1 => cacheBelow (stackTop n) (stackBelow n)

/-- Every cache of the stack coherent with its parent, over a database of unspent coins. -/
def StackInv : (n : Nat) → StackState n → Prop
  | 0 => DBInv
  | n + 1 => cacheInv (stackTop n) (StackInv n)

/-- The best blocks the top of a stack accepts in a `BatchWrite`: the database asserts
a non-null one. -/
def StackReady : Nat → UInt256 → Prop
  | 0 => fun hashBlock => hashBlock ≠ UInt256.zero
  | _ + 1 => fun _ => True

/-- Every layer of a stack of `n` caches, the top first and the database last. -/
def stackLayers (n : Nat) (s : StackState n) : List RefLayer := stackTop n s :: stackBelow n s

/-- The database at the bottom of a stack. -/
def stackBase : (n : Nat) → StackState n → CCoinsViewDB
  | 0 => id
  | n + 1 => fun s => stackBase n s.2

/-- `n` new caches over the database `db`. -/
def stackInit (db : CCoinsViewDB) : (n : Nat) → StackState n
  | 0 => db
  | n + 1 => (CCoinsViewCache.init, stackInit db n)

theorem StackReady_of_ne {hashBlock : UInt256} (h : hashBlock ≠ UInt256.zero) :
    ∀ n, StackReady n hashBlock
  | 0 => h
  | _ + 1 => trivial

theorem stackInit_inv {db : CCoinsViewDB} (hdb : DBInv db) : ∀ n, StackInv n (stackInit db n)
  | 0 => hdb
  | n + 1 => ⟨CCoinsMap.coherent_empty _, stackInit_inv hdb n⟩

theorem stackLayers_length : ∀ (n : Nat) (s : StackState n), (stackLayers n s).length = n + 1
  | 0, _ => rfl
  | n + 1, s => by
    show (stackLayers n s.2).length + 1 = n + 1 + 1
    rw [stackLayers_length n s.2]

/-- The last layer is the database. -/
theorem stackLayers_getLast? : ∀ (n : Nat) (s : StackState n),
    (stackLayers n s).getLast? = some (dbTop (stackBase n s))
  | 0, _ => rfl
  | n + 1, s => by
    show (cacheTop (stackTop n) s :: stackTop n s.2 :: stackBelow n s.2).getLast? = _
    rw [List.getLast?_cons_cons]
    exact stackLayers_getLast? n s.2

/-- A stack of caches over the database is a lawful parent. -/
theorem stackView_lawful :
    ∀ n, LawfulView (stackTop n) (stackBelow n) (StackInv n) (stackView n) (StackReady n)
  | 0 => db_lawful
  | n + 1 => cache_lawful (stackView_lawful n)

/-- What an operation on the layer with `d` layers above it asks of the reference, in
a stack of `n` caches: the layer is a cache, a write goes to the top, and the layer's
own parent accepts the operation. -/
def StackAllowed (n : Nat) (layers : List RefLayer) (d : Nat) (op : CacheOp) : Prop :=
  d < n ∧ (op.isWrite = true → d = 0) ∧
    op.AllowedTop (StackReady (n - (d + 1))) (layers.getD d default)

/-- Every operation of a run allowed on the reference layers it meets. -/
def RunAllowed (n : Nat) : List RefLayer → List (Nat × CacheOp) → Prop
  | _, [] => True
  | layers, (d, op) :: ops => StackAllowed n layers d op ∧ RunAllowed n (refExec layers d op) ops

/-- An operation beneath the top of a stack is one the stack beneath allows, and not
a write. -/
theorem StackAllowed.tail {n d : Nat} {l : RefLayer} {ls : List RefLayer} {op : CacheOp}
    (h : StackAllowed (n + 1) (l :: ls) (d + 1) op) : StackAllowed n ls d op ∧ op.isWrite = false := by
  obtain ⟨hd, hw, hop⟩ := h
  have hw' : op.isWrite = false := by
    cases hwb : op.isWrite with
    | false => rfl
    | true => exact absurd (hw hwb) (Nat.succ_ne_zero d)
  have hidx : n + 1 - (d + 1 + 1) = n - (d + 1) := by omega
  rw [hidx, List.getD_cons_succ] at hop
  refine ⟨⟨by omega, fun h => ?_, hop⟩, hw'⟩
  rw [hw'] at h
  cases h

/-- One operation on a layer of the stack: no error, the invariant kept, and every
layer as the reference says. -/
theorem execAt_spec (n d : Nat) (op : CacheOp) (s : StackState n) (hinv : StackInv n s)
    (hallowed : StackAllowed n (stackLayers n s) d op) :
    ∃ s', (execAt n d op).run.run s = (.ok (), s') ∧ StackInv n s' ∧
      stackLayers n s' = refExec (stackLayers n s) d op := by
  induction n generalizing d with
  | zero => exact absurd hallowed.1 (Nat.not_lt_zero d)
  | succ n ih =>
    cases d with
    | zero =>
      -- the top cache, over the stack beneath it
      have hop : op.AllowedTop (StackReady n) (cacheTop (stackTop n) s) := hallowed.2.2
      exact exec_run (stackView_lawful n) s hinv op hop
    | succ d =>
      -- a layer beneath: the top cache stays, and so does the map beneath it
      obtain ⟨hallowed', hw⟩ := StackAllowed.tail hallowed
      obtain ⟨t', hrun, hinv', hlayers⟩ := ih d s.2 hinv.2 hallowed'
      obtain ⟨l', ls', hexec, hcoins⟩ := refExec_cons_coins hw (stackTop n s.2) (stackBelow n s.2) d
      have htop : stackTop n t' = l' := (List.cons.inj (hlayers.trans hexec)).1
      have hcoins' : (stackTop n t').coins = (stackTop n s.2).coins := by rw [htop, hcoins]
      refine ⟨(s.1, t'), ?_, ⟨?_, hinv'⟩, ?_⟩
      · show (onSnd (execAt n d op)).run.run (s.1, s.2) = _
        rw [run_onSnd, hrun]
        rfl
      · show s.1.cacheCoins.Coherent (stackTop n t').coins
        rw [hcoins']
        exact hinv.1
      · show cacheTop (stackTop n) (s.1, t') :: stackLayers n t' =
          cacheTop (stackTop n) s :: refExec (stackLayers n s.2) d op
        rw [hlayers]
        simp only [cacheTop, hcoins']

/-- A run of operations, each allowed where it comes: no error, and every layer of the
stack as the reference says. -/
theorem runOps_spec (n : Nat) (ops : List (Nat × CacheOp)) (s : StackState n)
    (hinv : StackInv n s) (hallowed : RunAllowed n (stackLayers n s) ops) :
    ∃ s', (runOps n ops).run.run s = (.ok (), s') ∧ StackInv n s' ∧
      stackLayers n s' = refRun (stackLayers n s) ops := by
  induction ops generalizing s with
  | nil => exact ⟨s, rfl, hinv, rfl⟩
  | cons dop ops ih =>
    obtain ⟨d, op⟩ := dop
    obtain ⟨hstep, hrest⟩ := hallowed
    obtain ⟨s₁, hrun₁, hinv₁, hlayers₁⟩ := execAt_spec n d op s hinv hstep
    rw [← hlayers₁] at hrest
    obtain ⟨s', hrun, hinv', hlayers⟩ := ih s₁ hinv₁ hrest
    refine ⟨s', ?_, hinv', ?_⟩
    · rw [runOps, run_bind, hrun₁]
      exact hrun
    · rw [hlayers, hlayers₁]
      rfl

/-! ## Flushing every layer -/

/-- Flush every cache, from the top down. -/
def flushAll (n : Nat) : List (Nat × CacheOp) := (List.range n).map fun d => (d, .Flush)

theorem runOps_append (n : Nat) (ops ops' : List (Nat × CacheOp)) :
    runOps n (ops ++ ops') = (runOps n ops >>= fun _ => runOps n ops') := by
  induction ops with
  | nil => rw [List.nil_append, runOps, pure_bind]
  | cons dop ops ih =>
    obtain ⟨d, op⟩ := dop
    rw [List.cons_append, runOps, runOps, ih, bind_assoc]

/-- In the reference, a flush beneath `d + 1` copies of a layer makes one more. -/
theorem refExec_flush (l l' : RefLayer) (ls : List RefLayer) (d : Nat) :
    refExec (List.replicate (d + 1) l ++ l' :: ls) d .Flush = List.replicate (d + 2) l ++ ls := by
  induction d with
  | zero => rfl
  | succ d ih =>
    rw [List.replicate_succ, List.cons_append, refExec, ih]
    rfl

/-- In the reference, flushing the layers from `d` down copies the top into each. -/
theorem refRun_flushes (l : RefLayer) (d : Nat) (ls : List RefLayer) :
    refRun (List.replicate (d + 1) l ++ ls) ((List.range' d ls.length).map fun i => (i, .Flush)) =
      List.replicate (d + 1 + ls.length) l := by
  induction ls generalizing d with
  | nil => rw [List.append_nil]; rfl
  | cons l' ls ih =>
    rw [List.length_cons, List.range'_succ, List.map_cons, refRun, refExec_flush, ih (d + 1)]
    congr 1
    omega

theorem getD_replicate_append (l : RefLayer) (ls : List RefLayer) (d : Nat) :
    (List.replicate (d + 1) l ++ ls).getD d default = l := by
  rw [List.getD_eq_getElem?_getD, List.getElem?_append_left (by simp), List.getElem?_replicate,
    if_pos (Nat.lt_succ_self d), Option.getD_some]

/-- Flushing the layers from `d` down is allowed once the top has a best block. -/
theorem runAllowed_flushes (n : Nat) (l : RefLayer) (hhash : l.hashBlock ≠ UInt256.zero) (d : Nat)
    (ls : List RefLayer) (hlen : d + ls.length = n) :
    RunAllowed n (List.replicate (d + 1) l ++ ls) ((List.range' d ls.length).map fun i => (i, .Flush)) := by
  induction ls generalizing d with
  | nil => trivial
  | cons l' ls ih =>
    rw [List.length_cons, List.range'_succ, List.map_cons]
    refine ⟨⟨by simp only [List.length_cons] at hlen; omega, ⟨fun h => absurd h (by decide), ?_⟩⟩, ?_⟩
    · show StackReady (n - (d + 1)) ((List.replicate (d + 1) l ++ l' :: ls).getD d default).hashBlock
      rw [getD_replicate_append]
      exact StackReady_of_ne hhash _
    · rw [refExec_flush]
      exact ih (d + 1) (by simp only [List.length_cons] at hlen; omega)

/-! ## The stack refines the reference -/

/-- A stack of caches over the database, from any state keeping the invariant, under
a run that writes only to the top cache, adds unspent coins, overwrites only with
`possible_overwrite`, and flushes into the database only with a best block: the run
reaches no error, and every layer reports what the reference does. Flushing every
cache afterwards, from the top down, leaves in the database the reference map of the
top layer. -/
theorem CCoinsViewCache_stack_refines (n : Nat) (s : StackState n) (hinv : StackInv n s)
    (ops : List (Nat × CacheOp)) (hallowed : RunAllowed n (stackLayers n s) ops) :
    (∃ s', (runOps n ops).run.run s = (.ok (), s') ∧
      stackLayers n s' = refRun (stackLayers n s) ops) ∧
    (((refRun (stackLayers n s) ops).headD default).hashBlock ≠ UInt256.zero →
      ∃ s', (runOps n (ops ++ flushAll n)).run.run s = (.ok (), s') ∧
        (dbTop (stackBase n s')).coins = ((refRun (stackLayers n s) ops).headD default).coins) := by
  obtain ⟨s₁, hrun₁, hinv₁, hlayers₁⟩ := runOps_spec n ops s hinv hallowed
  refine ⟨⟨s₁, hrun₁, hlayers₁⟩, fun hhash => ?_⟩
  -- the reference top, over the `n` layers beneath it
  obtain ⟨l, ls, hls⟩ : ∃ l ls, stackLayers n s₁ = l :: ls := ⟨_, _, rfl⟩
  have hlen : ls.length = n := by
    have h := stackLayers_length n s₁
    rw [hls, List.length_cons] at h
    omega
  rw [← hlayers₁, hls] at hhash ⊢
  have href : refRun (l :: ls) (flushAll n) = List.replicate (n + 1) l := by
    have h := refRun_flushes l 0 ls
    rw [show 0 + 1 + ls.length = ls.length + 1 by omega] at h
    rw [flushAll, List.range_eq_range', ← hlen]
    exact h
  have hflush : RunAllowed n (stackLayers n s₁) (flushAll n) := by
    rw [hls, flushAll, List.range_eq_range', ← hlen]
    exact runAllowed_flushes ls.length l hhash 0 ls (Nat.zero_add _)
  obtain ⟨s', hrun', -, hlayers'⟩ := runOps_spec n (flushAll n) s₁ hinv₁ hflush
  refine ⟨s', ?_, ?_⟩
  · rw [runOps_append, run_bind, hrun₁]
    exact hrun'
  · -- every layer is now the reference top, the database last among them
    have hlast := stackLayers_getLast? n s'
    rw [hlayers', hls, href, List.getLast?_replicate, if_neg (Nat.succ_ne_zero n)] at hlast
    rw [← Option.some.inj hlast]
    rfl

/-- A block hash, every byte `0xbb`. -/
def blockHash : UInt256 := ⟨List.replicate 32 0xbb, rfl⟩

/-- Five units to `OP_TRUE`, mined at `nHeight`. -/
def stackCoin (nHeight : Nat) : Coin := ⟨⟨5, [0x51]⟩, false, nHeight⟩

/-- A database holding two coins of the transaction zero, with no best block yet. -/
def twoCoinDB : CCoinsViewDB :=
  ⟨((∅ : AList fun _ : COutPoint => Coin).insert ⟨UInt256.zero, 0⟩ (stackCoin 1)).insert ⟨UInt256.zero, 1⟩
    (stackCoin 1), UInt256.zero⟩

theorem twoCoinDB_inv : DBInv twoCoinDB :=
  ((DBInv.empty _).insert _ (by decide)).insert _ (by decide)

/-- A run on two caches: the top adds a coin, spends one of the database, sets a best
block and is flushed into the cache beneath, which is read; the top then spends the coin
it added, now held FRESH by the cache beneath. -/
def stackRun : List (Nat × CacheOp) :=
  [(0, .AddCoin ⟨blockHash, 0⟩ (stackCoin 2) false), (0, .SpendCoin ⟨UInt256.zero, 0⟩),
    (0, .SetBestBlock blockHash), (0, .Flush), (1, .AccessCoin ⟨UInt256.zero, 1⟩),
    (0, .SpendCoin ⟨blockHash, 0⟩)]

theorem stackRun_allowed : RunAllowed 2 (stackLayers 2 (stackInit twoCoinDB 2)) stackRun :=
  ⟨⟨by decide, fun _ => rfl, by decide, fun _ => rfl⟩, ⟨by decide, fun _ => rfl, trivial⟩,
    ⟨by decide, fun _ => rfl, trivial⟩, ⟨by decide, fun _ => rfl, trivial⟩,
    ⟨by decide, fun h => (by cases h), trivial⟩, ⟨by decide, fun _ => rfl, trivial⟩, trivial⟩

/-- `stackRun` over `twoCoinDB` follows the reference, and flushing both caches then
leaves in the database the one coin neither spent. -/
theorem CCoinsViewCache_stack_refines_twoCaches :
    (∃ s', (runOps 2 stackRun).run.run (stackInit twoCoinDB 2) = (.ok (), s') ∧
      stackLayers 2 s' = refRun (stackLayers 2 (stackInit twoCoinDB 2)) stackRun) ∧
    ∃ s', (runOps 2 (stackRun ++ flushAll 2)).run.run (stackInit twoCoinDB 2) = (.ok (), s') ∧
      (dbTop (stackBase 2 s')).coins =
        ((refRun (stackLayers 2 (stackInit twoCoinDB 2)) stackRun).headD default).coins ∧
      (dbTop (stackBase 2 s')).coins ⟨UInt256.zero, 0⟩ = none ∧
      (dbTop (stackBase 2 s')).coins ⟨UInt256.zero, 1⟩ = some (stackCoin 1) ∧
      (dbTop (stackBase 2 s')).coins ⟨blockHash, 0⟩ = none := by
  obtain ⟨hrun, hflush⟩ :=
    CCoinsViewCache_stack_refines 2 _ (stackInit_inv twoCoinDB_inv 2) _ stackRun_allowed
  obtain ⟨s', hrun', hdb⟩ := hflush (by decide)
  refine ⟨hrun, s', hrun', hdb, ?_⟩
  rw [hdb]
  decide

/-- A write beneath the top cache: an `AddCoin` to each of two caches, each where its
layer reports no coin, and the flush of the top cache into the one beneath then
reaches the `logic_error` of `BatchWrite`. -/
theorem runOps_AddCoin_below_logic_error :
    ((stackLayers 2 (stackInit ⟨∅, UInt256.zero⟩ 2)).getD 0 default).coins ⟨UInt256.zero, 0⟩ = none ∧
    ((stackLayers 2 ((execAt 2 0 (.AddCoin ⟨UInt256.zero, 0⟩ ⟨⟨0, []⟩, false, 1⟩ false)).run.run
        (stackInit ⟨∅, UInt256.zero⟩ 2)).2).getD 1 default).coins ⟨UInt256.zero, 0⟩ = none ∧
    ((runOps 2 [(0, .AddCoin ⟨UInt256.zero, 0⟩ ⟨⟨0, []⟩, false, 1⟩ false),
        (1, .AddCoin ⟨UInt256.zero, 0⟩ ⟨⟨0, []⟩, false, 1⟩ false), (0, .Flush)]).run.run
        (stackInit ⟨∅, UInt256.zero⟩ 2)).1 =
      .error (.logic_error
        "FRESH flag misapplied to cache entry for base transaction with spendable outputs") :=
  ⟨rfl, rfl, rfl⟩

end BitcoinPQ

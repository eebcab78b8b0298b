import Mathlib.Algebra.Order.BigOperators.Group.List
import BitcoinPQ.Core.Selection
import BitcoinPQ.Models.Primitives.Transaction
import BitcoinPQ.Models.Encoding.Money

/-!
# Coin selection

`wallet/wallet.cpp`: `CWallet::SelectCoinsMinConf` picks from the wallet's outputs a set of
coins worth at least a target. It shuffles the outputs and keeps those that pass its
filters; an output of exactly the target value is returned at once, and the others are
split into the coins below `nTargetValue + MIN_CHANGE` and the lowest coin above. When the
small coins reach the target but not exactly, `ApproximateBestSubset` searches them, in
1000 rounds of a randomized two-pass walk, for the subset of least value at or above the
target, and the search is repeated for `nTargetValue + MIN_CHANGE`; the result is that
subset or the lowest larger coin.

The random choices are arguments: the draws of `GetRandInt` that `random_shuffle` makes, and
the `randbool` stream of each of the two `FastRandomContext`s. The wallet's `IsFromMe` and
the mempool's `TransactionWithinChainLimit` are arguments as well. Amounts are `Int`; on
outputs whose total is at most `MAX_MONEY`, no sum the source forms leaves `int64_t`.
`setCoinsRet` is the list of its coins in the order they were inserted.

Whatever is drawn, the best subset of a search is a subset of the coins whose value is the
best value and at least the search's target (`ApproximateBestSubset_spec`), and
`SelectCoinsMinConf` succeeds exactly when the outputs that pass its filters reach the
target, with a subset of them worth at least the target.
-/

namespace BitcoinPQ

open Selection

/-- `MIN_CHANGE`: the change below which coin selection looks for a better match. -/
def MIN_CHANGE : Int := CENT

/-- `CWalletTx`, by what coin selection reads of it: its hash and its outputs. -/
structure CWalletTx where
  hash : UInt256
  vout : List CTxOut

/-- `COutput`: output `i` of a wallet transaction, its depth in the chain and whether the
wallet holds the keys to spend it. `AvailableCoins` builds one only for an output that the
transaction has. -/
structure COutput where
  tx : CWalletTx
  i : Nat
  nDepth : Int
  fSpendable : Bool
  i_lt : i < tx.vout.length

/-- `CInputCoin`: an outpoint and the output it names. A set of coins compares them by
outpoint. -/
structure CInputCoin where
  outpoint : COutPoint
  txout : CTxOut
  deriving DecidableEq

/-- The value of the coin's output, `txout.nValue`. -/
def CInputCoin.nValue (coin : CInputCoin) : Int := coin.txout.nValue.toInt

/-- `CInputCoin(walletTx, i)`; the index is in range, so the constructor does not throw. -/
def CInputCoin.ofOutput (output : COutput) : CInputCoin :=
  ⟨⟨output.tx.hash, UInt32.ofNat output.i⟩, output.tx.vout.get ⟨output.i, output.i_lt⟩⟩

/-- The checks an output passes before `SelectCoinsMinConf` considers it: the wallet can
spend it, it is `nConfMine` deep if the wallet sent it and `nConfTheirs` deep if not, and
its transaction is within the mempool's limit of `nMaxAncestors` ancestors. -/
def SelectCoinsFilter (IsFromMe : CWalletTx → Bool)
    (TransactionWithinChainLimit : UInt256 → Nat → Bool) (nConfMine nConfTheirs : Int)
    (nMaxAncestors : Nat) (output : COutput) : Bool :=
  output.fSpendable &&
    !decide (output.nDepth < if IsFromMe output.tx then nConfMine else nConfTheirs) &&
    TransactionWithinChainLimit output.tx.hash nMaxAncestors

/-- What the loop over the shuffled outputs gathers: the lowest coin at or above
`nTargetValue + MIN_CHANGE`, the coins below it, and their total. -/
structure CoinsGathered where
  coinLowestLarger : Option CInputCoin
  vValue : List CInputCoin
  nTotalLower : Int

/-- The loop over the shuffled outputs: `.inl coin` for the first output that passes the
filter and has exactly the target value, where the source returns at once, and otherwise
what it gathered. -/
def gatherCoins (filter : COutput → Bool) (nTargetValue : Int) :
    List COutput → CoinsGathered → CInputCoin ⊕ CoinsGathered
  | [], g => .inr g
  | output :: vCoins, g =>
    if filter output then
      let coin := CInputCoin.ofOutput output
      if coin.nValue = nTargetValue then .inl coin
      else if coin.nValue < nTargetValue + MIN_CHANGE then
        gatherCoins filter nTargetValue vCoins
          { g with vValue := g.vValue ++ [coin], nTotalLower := g.nTotalLower + coin.nValue }
      else if g.coinLowestLarger.all fun larger => decide (coin.nValue < larger.nValue) then
        gatherCoins filter nTargetValue vCoins { g with coinLowestLarger := some coin }
      else gatherCoins filter nTargetValue vCoins g
    else gatherCoins filter nTargetValue vCoins g

/-- `std::set<CInputCoin>::insert`: a coin whose outpoint is in the set already is not
added again. -/
def insertCoin (setCoins : List CInputCoin) (coin : CInputCoin) : List CInputCoin :=
  if setCoins.any fun c => c.outpoint == coin.outpoint then setCoins else setCoins ++ [coin]

/-- Each coin in turn is inserted into `setCoinsRet` and its value added to `nValueRet`. -/
def insertCoins (ret : List CInputCoin × Int) (coins : List CInputCoin) : List CInputCoin × Int :=
  coins.foldl (fun ret coin => (insertCoin ret.1 coin, ret.2 + coin.nValue)) ret

/-! ## `ApproximateBestSubset` -/

/-- The variables of `ApproximateBestSubset`, with the number of `randbool` draws made. -/
structure SubsetSearch where
  vfIncluded : List Bool
  nTotal : Int
  fReachedTarget : Bool
  vfBest : List Bool
  nBest : Int
  nDraws : Nat

/-- Coin `i` in a pass: the first pass includes it at random, the second whenever it is
out. A subset that reaches the target replaces the best one when it is lower, and the coin
is then taken out again. -/
def subsetStep (randbool : Nat → Bool) (nTargetValue : Int) (nPass : Nat) (s : SubsetSearch)
    (coin : CInputCoin) (i : Nat) : SubsetSearch :=
  let pick := if nPass = 0 then randbool s.nDraws else !s.vfIncluded.getD i false
  let nDraws := if nPass = 0 then s.nDraws + 1 else s.nDraws
  if pick then
    let nTotal := s.nTotal + coin.nValue
    let vfIncluded := s.vfIncluded.set i true
    if nTotal ≥ nTargetValue then
      { vfIncluded := vfIncluded.set i false
        nTotal := nTotal - coin.nValue
        fReachedTarget := true
        vfBest := if nTotal < s.nBest then vfIncluded else s.vfBest
        nBest := if nTotal < s.nBest then nTotal else s.nBest
        nDraws := nDraws }
    else { s with vfIncluded := vfIncluded, nTotal := nTotal, nDraws := nDraws }
  else { s with nDraws := nDraws }

/-- One pass over the coins. -/
def subsetPass (randbool : Nat → Bool) (vValue : List CInputCoin) (nTargetValue : Int)
    (nPass : Nat) (s : SubsetSearch) : SubsetSearch :=
  vValue.zipIdx.foldl (fun s ci => subsetStep randbool nTargetValue nPass s ci.1 ci.2) s

/-- One round, `nRep`: nothing included, then the two passes while no subset has reached
the target. -/
def subsetRound (randbool : Nat → Bool) (vValue : List CInputCoin) (nTargetValue : Int)
    (s : SubsetSearch) : SubsetSearch :=
  let s := { s with
    vfIncluded := List.replicate vValue.length false
    nTotal := 0
    fReachedTarget := false }
  let s := if s.fReachedTarget then s else subsetPass randbool vValue nTargetValue 0 s
  if s.fReachedTarget then s else subsetPass randbool vValue nTargetValue 1 s

/-- The rounds left to run, stopping once a subset of exactly the target is found. -/
def subsetRounds (randbool : Nat → Bool) (vValue : List CInputCoin) (nTargetValue : Int) :
    Nat → SubsetSearch → SubsetSearch
  | 0, s => s
  | iterations + 1, s =>
    if s.nBest ≠ nTargetValue then
      subsetRounds randbool vValue nTargetValue iterations
        (subsetRound randbool vValue nTargetValue s)
    else s

/-- `ApproximateBestSubset`: the mask `vfBest` of the best subset found and its value
`nBest`, starting from all the coins and their total `nTotalLower`. -/
def ApproximateBestSubset (randbool : Nat → Bool) (vValue : List CInputCoin)
    (nTotalLower nTargetValue : Int) (iterations : Nat) : List Bool × Int :=
  let s := subsetRounds randbool vValue nTargetValue iterations
    { vfIncluded := []
      nTotal := 0
      fReachedTarget := false
      vfBest := List.replicate vValue.length true
      nBest := nTotalLower
      nDraws := 0 }
  (s.vfBest, s.nBest)

/-! ## The best subset

Whatever `randbool` draws, `vfBest` stays a mask over the coins that is worth `nBest`, at or
above the target. Inside a pass `vfIncluded` is a mask worth `nTotal`: a coin is picked only
while it is out, in the second pass by the test itself and in the first because the round
started with every coin out and the pass visits each coin once. -/

section Search

variable (randbool : Nat → Bool) (vValue : List CInputCoin) (nTargetValue : Int)

/-- What the search keeps true of its best subset. -/
structure BestInv (s : SubsetSearch) : Prop where
  length_vfBest : s.vfBest.length = vValue.length
  maskSum_vfBest : maskSum CInputCoin.nValue vValue s.vfBest = s.nBest
  le_nBest : nTargetValue ≤ s.nBest

/-- What a pass keeps true besides: the included coins are worth `nTotal`. -/
structure PassInv (s : SubsetSearch) : Prop extends BestInv vValue nTargetValue s where
  length_vfIncluded : s.vfIncluded.length = vValue.length
  maskSum_vfIncluded : maskSum CInputCoin.nValue vValue s.vfIncluded = s.nTotal

variable {vValue nTargetValue}

/-- The invariant reads only the best subset and its value. -/
theorem BestInv.of_best {s t : SubsetSearch} (hs : BestInv vValue nTargetValue s)
    (hb : t.vfBest = s.vfBest) (hn : t.nBest = s.nBest) : BestInv vValue nTargetValue t :=
  ⟨hb ▸ hs.length_vfBest, hb ▸ hn ▸ hs.maskSum_vfBest, hn ▸ hs.le_nBest⟩

/-- One coin keeps the pass invariant, and at most turns its own flag on. -/
theorem subsetStep_inv {nPass : Nat} {s : SubsetSearch} {i : Nat} (hi : i < vValue.length)
    (hs : PassInv vValue nTargetValue s)
    (hout : nPass = 0 → s.vfIncluded.getD i false = false) :
    let t := subsetStep randbool nTargetValue nPass s vValue[i] i
    PassInv vValue nTargetValue t ∧
      (t.vfIncluded = s.vfIncluded ∨ t.vfIncluded = s.vfIncluded.set i true) := by
  unfold subsetStep
  dsimp only
  by_cases hpick : (if nPass = 0 then randbool s.nDraws else !s.vfIncluded.getD i false) = true
  case neg =>
    rw [if_neg hpick]
    exact ⟨⟨hs.of_best rfl rfl, hs.length_vfIncluded, hs.maskSum_vfIncluded⟩, .inl rfl⟩
  case pos =>
    have hoff : s.vfIncluded.getD i false = false := by
      by_cases h0 : nPass = 0
      · exact hout h0
      · rw [if_neg h0] at hpick
        simpa using hpick
    have hsum := maskSum_set_true CInputCoin.nValue vValue s.vfIncluded i hi
      hs.length_vfIncluded hoff
    rw [hs.maskSum_vfIncluded] at hsum
    have hlen : (s.vfIncluded.set i true).length = vValue.length := by
      rw [List.length_set, hs.length_vfIncluded]
    rw [if_pos hpick]
    by_cases hreach : s.nTotal + vValue[i].nValue ≥ nTargetValue
    case pos =>
      -- the coin is taken out again; only the best subset may change
      have hback : (s.vfIncluded.set i true).set i false = s.vfIncluded := by
        rw [List.set_set, set_false_of_getD_false hoff]
      rw [if_pos hreach]
      refine ⟨⟨?_, ?_, ?_⟩, .inl hback⟩
      · by_cases hlt : s.nTotal + vValue[i].nValue < s.nBest
        · simp only [if_pos hlt]
          exact ⟨hlen, hsum, hreach⟩
        · simp only [if_neg hlt]
          exact hs.of_best rfl rfl
      · exact hback.symm ▸ hs.length_vfIncluded
      · dsimp only
        rw [hback, hs.maskSum_vfIncluded, Int.add_sub_cancel]
    case neg =>
      rw [if_neg hreach]
      exact ⟨⟨hs.of_best rfl rfl, hlen, hsum⟩, .inr rfl⟩

/-- A pass from coin `k` on keeps the pass invariant; in the first pass, the coins from `k`
on are out. -/
theorem subsetPass_inv (nPass : Nat) : ∀ (l : List CInputCoin) (k : Nat) (s : SubsetSearch),
    vValue.drop k = l → PassInv vValue nTargetValue s →
    (nPass = 0 → ∀ j, k ≤ j → s.vfIncluded.getD j false = false) →
    PassInv vValue nTargetValue
      ((l.zipIdx k).foldl (fun s ci => subsetStep randbool nTargetValue nPass s ci.1 ci.2) s)
  | [], _, _, _, hs, _ => hs
  | c :: l, k, s, hdrop, hs, hout => by
    have hk : k < vValue.length := by
      by_contra hk
      rw [List.drop_eq_nil_of_le (Nat.le_of_not_lt hk)] at hdrop
      exact absurd hdrop.symm (List.cons_ne_nil c l)
    rw [List.drop_eq_getElem_cons hk, List.cons.injEq] at hdrop
    obtain ⟨rfl, hrest⟩ := hdrop
    obtain ⟨hs', hinc⟩ := subsetStep_inv randbool hk hs
      (fun h0 => hout h0 k (Nat.le_refl k))
    rw [List.zipIdx_cons, List.foldl_cons]
    apply subsetPass_inv nPass l (k + 1) _ hrest hs'
    intro h0 j hj
    rcases hinc with h | h
    · rw [h]
      exact hout h0 j (Nat.le_of_succ_le hj)
    · rw [h, getD_set_ne (Nat.ne_of_lt hj)]
      exact hout h0 j (Nat.le_of_succ_le hj)

/-- A round keeps the best subset's invariant. -/
theorem subsetRound_inv {s : SubsetSearch} (hs : BestInv vValue nTargetValue s) :
    BestInv vValue nTargetValue (subsetRound randbool vValue nTargetValue s) := by
  let s₀ : SubsetSearch := { s with
    vfIncluded := List.replicate vValue.length false
    nTotal := 0
    fReachedTarget := false }
  have h₀ : PassInv vValue nTargetValue s₀ :=
    ⟨hs.of_best rfl rfl, List.length_replicate, maskSum_replicate_false _ _ _⟩
  -- the first pass starts with every coin out
  have h₁ : PassInv vValue nTargetValue (subsetPass randbool vValue nTargetValue 0 s₀) :=
    subsetPass_inv randbool 0 vValue 0 s₀ rfl h₀
      (fun _ j _ => getD_replicate_false _ j)
  have h₂ (s' : SubsetSearch) (h : PassInv vValue nTargetValue s') :
      PassInv vValue nTargetValue (subsetPass randbool vValue nTargetValue 1 s') :=
    subsetPass_inv randbool 1 vValue 0 s' rfl h (fun h10 => absurd h10 one_ne_zero)
  unfold subsetRound
  dsimp only
  rw [if_neg Bool.false_ne_true]
  split
  · exact h₁.toBestInv
  · exact (h₂ _ h₁).toBestInv

/-- The rounds keep the best subset's invariant. -/
theorem subsetRounds_inv : ∀ (iterations : Nat) (s : SubsetSearch),
    BestInv vValue nTargetValue s →
      BestInv vValue nTargetValue (subsetRounds randbool vValue nTargetValue iterations s)
  | 0, _, hs => hs
  | iterations + 1, s, hs => by
    rw [subsetRounds]
    split
    · exact subsetRounds_inv iterations _ (subsetRound_inv randbool hs)
    · exact hs

/-- Started from all the coins at or above the target, the search returns a mask over the
coins whose value is the returned `nBest`, at or above the target. -/
theorem ApproximateBestSubset_spec (iterations : Nat) {nTotalLower : Int}
    (hsum : (vValue.map CInputCoin.nValue).sum = nTotalLower) (hle : nTargetValue ≤ nTotalLower) :
    let best := ApproximateBestSubset randbool vValue nTotalLower nTargetValue iterations
    best.1.length = vValue.length ∧ maskSum CInputCoin.nValue vValue best.1 = best.2 ∧
      nTargetValue ≤ best.2 := by
  have hinit : BestInv vValue nTargetValue
      { vfIncluded := [], nTotal := 0, fReachedTarget := false,
        vfBest := List.replicate vValue.length true, nBest := nTotalLower, nDraws := 0 } :=
    ⟨List.length_replicate, (maskSum_replicate_true _ _).trans hsum, hle⟩
  have h := subsetRounds_inv randbool iterations _ hinit
  exact ⟨h.length_vfBest, h.maskSum_vfBest, h.le_nBest⟩

end Search

/-! ## Gathering the coins -/

section Gather

variable (nTargetValue : Int)

/-- What `gatherCoins` returns from `g` when no coin has exactly the target value, for the
coins `coins` of the outputs it read that pass the filter. -/
structure Gathered (coins : List CInputCoin) (g g' : CoinsGathered) : Prop where
  ne_target : ∀ c ∈ coins, c.nValue ≠ nTargetValue
  vValue_eq : g'.vValue = g.vValue ++ coins.filter fun c => c.nValue < nTargetValue + MIN_CHANGE
  nTotalLower_eq : g'.nTotalLower = g.nTotalLower +
    ((coins.filter fun c => c.nValue < nTargetValue + MIN_CHANGE).map CInputCoin.nValue).sum
  larger_of_some : ∀ c, g'.coinLowestLarger = some c →
    g.coinLowestLarger = some c ∨ c ∈ coins ∧ nTargetValue + MIN_CHANGE ≤ c.nValue
  small_of_none : g'.coinLowestLarger = none →
    g.coinLowestLarger = none ∧ ∀ c ∈ coins, c.nValue < nTargetValue + MIN_CHANGE

variable {nTargetValue}

theorem Gathered.nil (g : CoinsGathered) : Gathered nTargetValue [] g g :=
  ⟨nofun, by simp, by simp, fun _ h => .inl h, fun h => ⟨h, nofun⟩⟩

/-- A coin below `nTargetValue + MIN_CHANGE` joins `vValue`. -/
theorem Gathered.small {c : CInputCoin} {coins : List CInputCoin} {g g' : CoinsGathered}
    (hne : c.nValue ≠ nTargetValue) (hlt : c.nValue < nTargetValue + MIN_CHANGE)
    (h : Gathered nTargetValue coins
      { g with vValue := g.vValue ++ [c], nTotalLower := g.nTotalLower + c.nValue } g') :
    Gathered nTargetValue (c :: coins) g g' := by
  have hsmall : (decide (c.nValue < nTargetValue + MIN_CHANGE)) = true := decide_eq_true hlt
  refine ⟨?_, ?_, ?_, ?_, ?_⟩
  · exact List.forall_mem_cons.mpr ⟨hne, h.ne_target⟩
  · rw [h.vValue_eq]
    simp only [List.filter_cons, hsmall, if_true, List.append_assoc, List.singleton_append]
  · rw [h.nTotalLower_eq]
    simp only [List.filter_cons, hsmall, if_true, List.map_cons, List.sum_cons, Int.add_assoc]
  · intro d hd
    rcases h.larger_of_some d hd with h' | ⟨hmem, hle⟩
    · exact .inl h'
    · exact .inr ⟨List.mem_cons_of_mem c hmem, hle⟩
  · intro hn
    obtain ⟨hg, hall⟩ := h.small_of_none hn
    exact ⟨hg, List.forall_mem_cons.mpr ⟨hlt, hall⟩⟩

/-- A coin at or above `nTargetValue + MIN_CHANGE` lower than the lowest so far replaces it. -/
theorem Gathered.lowest {c : CInputCoin} {coins : List CInputCoin} {g g' : CoinsGathered}
    (hne : c.nValue ≠ nTargetValue) (hge : ¬c.nValue < nTargetValue + MIN_CHANGE)
    (h : Gathered nTargetValue coins { g with coinLowestLarger := some c } g') :
    Gathered nTargetValue (c :: coins) g g' := by
  have hlarge : (decide (c.nValue < nTargetValue + MIN_CHANGE)) = false := decide_eq_false hge
  refine ⟨?_, ?_, ?_, ?_, ?_⟩
  · exact List.forall_mem_cons.mpr ⟨hne, h.ne_target⟩
  · rw [h.vValue_eq]
    simp only [List.filter_cons, hlarge, Bool.false_eq_true, if_false]
  · rw [h.nTotalLower_eq]
    simp only [List.filter_cons, hlarge, Bool.false_eq_true, if_false]
  · intro d hd
    rcases h.larger_of_some d hd with h' | ⟨hmem, hle⟩
    · have hdc : c = d := Option.some.inj h'
      subst hdc
      exact .inr ⟨List.mem_cons_self, not_lt.mp hge⟩
    · exact .inr ⟨List.mem_cons_of_mem c hmem, hle⟩
  · intro hn
    exact absurd (h.small_of_none hn).1 (Option.some_ne_none c)

/-- A coin at or above `nTargetValue + MIN_CHANGE` not lower than the lowest so far is
dropped. -/
theorem Gathered.not_lowest {c : CInputCoin} {coins : List CInputCoin} {g g' : CoinsGathered}
    (hne : c.nValue ≠ nTargetValue) (hge : ¬c.nValue < nTargetValue + MIN_CHANGE)
    (hsome : g.coinLowestLarger ≠ none) (h : Gathered nTargetValue coins g g') :
    Gathered nTargetValue (c :: coins) g g' := by
  have hlarge : (decide (c.nValue < nTargetValue + MIN_CHANGE)) = false := decide_eq_false hge
  refine ⟨?_, ?_, ?_, ?_, ?_⟩
  · exact List.forall_mem_cons.mpr ⟨hne, h.ne_target⟩
  · rw [h.vValue_eq]
    simp only [List.filter_cons, hlarge, Bool.false_eq_true, if_false]
  · rw [h.nTotalLower_eq]
    simp only [List.filter_cons, hlarge, Bool.false_eq_true, if_false]
  · intro d hd
    rcases h.larger_of_some d hd with h' | ⟨hmem, hle⟩
    · exact .inl h'
    · exact .inr ⟨List.mem_cons_of_mem c hmem, hle⟩
  · intro hn
    exact absurd (h.small_of_none hn).1 hsome

variable (filter : COutput → Bool) (nTargetValue)

/-- An early return is an output that passes the filter with exactly the target value. -/
theorem gatherCoins_inl : ∀ (vCoins : List COutput) (g : CoinsGathered) (coin : CInputCoin),
    gatherCoins filter nTargetValue vCoins g = .inl coin →
      coin ∈ (vCoins.filter filter).map CInputCoin.ofOutput ∧ coin.nValue = nTargetValue
  | [], _, _, h => by cases h
  | output :: vCoins, g, coin, h => by
    rw [gatherCoins] at h
    by_cases hf : filter output = true
    case neg =>
      rw [if_neg hf] at h
      rw [List.filter_cons_of_neg hf]
      exact gatherCoins_inl vCoins g coin h
    case pos =>
      rw [if_pos hf] at h
      rw [List.filter_cons_of_pos hf, List.map_cons]
      dsimp only at h
      by_cases heq : (CInputCoin.ofOutput output).nValue = nTargetValue
      · rw [if_pos heq, Sum.inl.injEq] at h
        subst h
        exact ⟨List.mem_cons_self, heq⟩
      rw [if_neg heq] at h
      have hrest (g' : CoinsGathered) (h' : gatherCoins filter nTargetValue vCoins g' = .inl coin) :=
        (gatherCoins_inl vCoins g' coin h').imp_left
          (List.mem_cons_of_mem (CInputCoin.ofOutput output))
      split at h
      · exact hrest _ h
      · split at h
        · exact hrest _ h
        · exact hrest _ h

/-- Without an early return, the loop gathers what `Gathered` says. -/
theorem gatherCoins_inr : ∀ (vCoins : List COutput) (g g' : CoinsGathered),
    gatherCoins filter nTargetValue vCoins g = .inr g' →
      Gathered nTargetValue ((vCoins.filter filter).map CInputCoin.ofOutput) g g'
  | [], g, g', h => by
    rw [gatherCoins, Sum.inr.injEq] at h
    subst h
    exact Gathered.nil g
  | output :: vCoins, g, g', h => by
    rw [gatherCoins] at h
    by_cases hf : filter output = true
    case neg =>
      rw [if_neg hf] at h
      rw [List.filter_cons_of_neg hf]
      exact gatherCoins_inr vCoins g g' h
    case pos =>
      rw [if_pos hf] at h
      rw [List.filter_cons_of_pos hf, List.map_cons]
      dsimp only at h
      by_cases heq : (CInputCoin.ofOutput output).nValue = nTargetValue
      · rw [if_pos heq] at h
        cases h
      rw [if_neg heq] at h
      by_cases hlt : (CInputCoin.ofOutput output).nValue < nTargetValue + MIN_CHANGE
      · rw [if_pos hlt] at h
        exact (gatherCoins_inr vCoins _ g' h).small heq hlt
      rw [if_neg hlt] at h
      split at h
      · exact (gatherCoins_inr vCoins _ g' h).lowest heq hlt
      · next hall =>
        have hsome : g.coinLowestLarger ≠ none := by
          intro hn
          rw [hn] at hall
          exact hall rfl
        exact (gatherCoins_inr vCoins g g' h).not_lowest heq hlt hsome

end Gather

/-! ## `SelectCoinsMinConf` -/

/-- The two searches of `SelectCoinsMinConf`: for the target, and again for
`nTargetValue + MIN_CHANGE` when the first found no exact match and the coins reach that. -/
def searchBest (randbool₁ randbool₂ : Nat → Bool) (vValue : List CInputCoin)
    (nTotalLower nTargetValue : Int) : List Bool × Int :=
  let best := ApproximateBestSubset randbool₁ vValue nTotalLower nTargetValue 1000
  if best.2 ≠ nTargetValue ∧ nTotalLower ≥ nTargetValue + MIN_CHANGE then
    ApproximateBestSubset randbool₂ vValue nTotalLower (nTargetValue + MIN_CHANGE) 1000
  else best

/-- `CWallet::SelectCoinsMinConf`: whether it succeeds, `setCoinsRet` and `nValueRet`.
`std::sort` leaves the order of coins of equal value open; the model sorts stably. -/
def SelectCoinsMinConf (GetRandInt : Nat → Nat) (randbool₁ randbool₂ : Nat → Bool)
    (IsFromMe : CWalletTx → Bool) (TransactionWithinChainLimit : UInt256 → Nat → Bool)
    (nTargetValue nConfMine nConfTheirs : Int) (nMaxAncestors : Nat) (vCoins : List COutput) :
    Bool × List CInputCoin × Int :=
  let filter := SelectCoinsFilter IsFromMe TransactionWithinChainLimit nConfMine nConfTheirs
    nMaxAncestors
  match gatherCoins filter nTargetValue (random_shuffle GetRandInt vCoins) ⟨none, [], 0⟩ with
  | .inl coin => (true, insertCoins ([], 0) [coin])
  | .inr g =>
    if g.nTotalLower = nTargetValue then (true, insertCoins ([], 0) g.vValue)
    else if g.nTotalLower < nTargetValue then
      match g.coinLowestLarger with
      | none => (false, [], 0)
      | some larger => (true, insertCoins ([], 0) [larger])
    else
      -- sorted by value, largest first
      let vValue := (g.vValue.mergeSort fun a b => decide (a.nValue ≤ b.nValue)).reverse
      let best := searchBest randbool₁ randbool₂ vValue g.nTotalLower nTargetValue
      match g.coinLowestLarger with
      | some larger =>
        if (best.2 ≠ nTargetValue ∧ best.2 < nTargetValue + MIN_CHANGE) ∨
            larger.nValue ≤ best.2 then
          (true, insertCoins ([], 0) [larger])
        else (true, insertCoins ([], 0) (select vValue best.1))
      | none => (true, insertCoins ([], 0) (select vValue best.1))

/-- Coins of distinct outpoints are each inserted, and `nValueRet` is their value. -/
theorem insertCoins_of_nodup : ∀ (coins acc : List CInputCoin) (v : Int),
    ((acc ++ coins).map CInputCoin.outpoint).Nodup →
      insertCoins (acc, v) coins = (acc ++ coins, v + (coins.map CInputCoin.nValue).sum)
  | [], acc, v, _ => by
    rw [List.append_nil, List.map_nil, List.sum_nil, Int.add_zero]
    rfl
  | c :: coins, acc, v, hnd => by
    have hnew : insertCoin acc c = acc ++ [c] := by
      rw [insertCoin, if_neg]
      rw [List.map_append, List.map_cons, List.nodup_append] at hnd
      simp only [List.any_eq_true, beq_iff_eq, not_exists, not_and]
      intro d hd heq
      exact hnd.2.2 _ (List.mem_map_of_mem hd) _ List.mem_cons_self heq
    show insertCoins (insertCoin acc c, v + c.nValue) coins = _
    rw [hnew, insertCoins_of_nodup coins (acc ++ [c]) _ (by simpa using hnd),
      List.append_assoc, List.singleton_append, List.map_cons, List.sum_cons, Int.add_assoc]

/-- A successful selection from `coins`: coins among them, of distinct outpoints and worth
at least the target, returned with their value. -/
def SelectedFrom (coins : List CInputCoin) (nTargetValue : Int)
    (r : Bool × List CInputCoin × Int) : Prop :=
  ∃ setCoins : List CInputCoin, r = (true, setCoins, (setCoins.map CInputCoin.nValue).sum) ∧
    setCoins ⊆ coins ∧ (setCoins.map CInputCoin.outpoint).Nodup ∧
    nTargetValue ≤ (setCoins.map CInputCoin.nValue).sum

theorem SelectedFrom.of_subset {coins setCoins : List CInputCoin} {nTargetValue : Int}
    (hsub : setCoins ⊆ coins) (hnd : (setCoins.map CInputCoin.outpoint).Nodup)
    (hle : nTargetValue ≤ (setCoins.map CInputCoin.nValue).sum) :
    SelectedFrom coins nTargetValue (true, insertCoins ([], 0) setCoins) := by
  refine ⟨setCoins, ?_, hsub, hnd, hle⟩
  rw [insertCoins_of_nodup setCoins [] 0 hnd, List.nil_append, Int.zero_add]

theorem SelectedFrom.single {coins : List CInputCoin} {nTargetValue : Int} {c : CInputCoin}
    (hc : c ∈ coins) (hle : nTargetValue ≤ c.nValue) :
    SelectedFrom coins nTargetValue (true, insertCoins ([], 0) [c]) :=
  SelectedFrom.of_subset (fun x hx => List.mem_singleton.mp hx ▸ hc) (List.nodup_singleton _)
    (by rwa [List.map_singleton, List.sum_singleton])

/-- Distinct coins among coins of values not below zero are worth no more than all of them. -/
theorem sum_le_of_subset {coins setCoins : List CInputCoin} (hsub : setCoins ⊆ coins)
    (hnd : (setCoins.map CInputCoin.outpoint).Nodup) (hnonneg : ∀ c ∈ coins, 0 ≤ c.nValue) :
    (setCoins.map CInputCoin.nValue).sum ≤ (coins.map CInputCoin.nValue).sum := by
  obtain ⟨l, hperm, hsubl⟩ := (List.Nodup.of_map _ hnd).subperm hsub
  rw [← (hperm.map CInputCoin.nValue).sum_eq]
  apply List.Sublist.sum_le_sum (hsubl.map CInputCoin.nValue)
  intro a ha
  obtain ⟨c, hc, rfl⟩ := List.mem_map.mp ha
  exact hnonneg c hc

theorem MIN_CHANGE_pos : 0 < MIN_CHANGE := by
  unfold MIN_CHANGE CENT
  omega

/-- Either search returns a mask over the coins worth its value, at or above the target. -/
theorem searchBest_spec (randbool₁ randbool₂ : Nat → Bool) {vValue : List CInputCoin}
    {nTotalLower : Int} (nTargetValue : Int)
    (hsum : (vValue.map CInputCoin.nValue).sum = nTotalLower) (hle : nTargetValue ≤ nTotalLower) :
    let best := searchBest randbool₁ randbool₂ vValue nTotalLower nTargetValue
    maskSum CInputCoin.nValue vValue best.1 = best.2 ∧ nTargetValue ≤ best.2 := by
  obtain ⟨-, hmask₁, hle₁⟩ := ApproximateBestSubset_spec randbool₁ 1000 hsum hle
  unfold searchBest
  dsimp only
  split
  case isTrue hguard =>
    -- the second search starts from all the coins, at or above its own target
    obtain ⟨-, hmask₂, hle₂⟩ := ApproximateBestSubset_spec randbool₂ 1000 hsum hguard.2
    exact ⟨hmask₂, le_trans (Int.le_add_of_nonneg_right (le_of_lt MIN_CHANGE_pos)) hle₂⟩
  case isFalse => exact ⟨hmask₁, hle₁⟩

section Select

variable (GetRandInt : Nat → Nat) (randbool₁ randbool₂ : Nat → Bool)
  (IsFromMe : CWalletTx → Bool) (TransactionWithinChainLimit : UInt256 → Nat → Bool)
  (nTargetValue nConfMine nConfTheirs : Int) (nMaxAncestors : Nat) (vCoins : List COutput)

/-- `SelectCoinsMinConf` fails only when the coins of the shuffled outputs that pass the
filter are worth less than the target, and otherwise selects from them. -/
theorem SelectCoinsMinConf_cases {coins : List CInputCoin}
    (hcoins : coins = ((random_shuffle GetRandInt vCoins).filter
      (SelectCoinsFilter IsFromMe TransactionWithinChainLimit nConfMine nConfTheirs
        nMaxAncestors)).map CInputCoin.ofOutput)
    (hnd : (coins.map CInputCoin.outpoint).Nodup) :
    let r := SelectCoinsMinConf GetRandInt randbool₁ randbool₂ IsFromMe
      TransactionWithinChainLimit nTargetValue nConfMine nConfTheirs nMaxAncestors vCoins
    r = (false, [], 0) ∧ (coins.map CInputCoin.nValue).sum < nTargetValue ∨
      SelectedFrom coins nTargetValue r := by
  unfold SelectCoinsMinConf
  dsimp only
  split
  case h_1 coin hgather =>
    obtain ⟨hmem, hval⟩ := gatherCoins_inl _ _ _ _ coin hgather
    exact .inr (SelectedFrom.single (hcoins ▸ hmem) (le_of_eq hval.symm))
  case h_2 g hgather =>
    have hG := gatherCoins_inr _ _ _ _ g hgather
    rw [← hcoins] at hG
    -- `vValue` is the coins below `nTargetValue + MIN_CHANGE`, worth `nTotalLower`
    have hsub : g.vValue ⊆ coins := by
      rw [hG.vValue_eq, List.nil_append]
      exact fun c hc => (List.mem_filter.mp hc).1
    have hsubl : (g.vValue.map CInputCoin.outpoint).Sublist (coins.map CInputCoin.outpoint) := by
      rw [hG.vValue_eq, List.nil_append]
      exact (List.filter_sublist).map _
    have hsum : (g.vValue.map CInputCoin.nValue).sum = g.nTotalLower := by
      rw [hG.vValue_eq, hG.nTotalLower_eq, List.nil_append, Int.zero_add]
    split
    case isTrue heq =>
      exact .inr (SelectedFrom.of_subset hsub (hnd.sublist hsubl) (le_of_eq (hsum.trans heq).symm))
    case isFalse hne =>
      split
      case isTrue hlt =>
        split
        case h_1 hnone =>
          -- no larger coin: every coin is below the target plus `MIN_CHANGE`
          refine .inl ⟨rfl, ?_⟩
          obtain ⟨-, hall⟩ := hG.small_of_none hnone
          have hself : (coins.filter fun c => c.nValue < nTargetValue + MIN_CHANGE) = coins :=
            List.filter_eq_self.mpr fun c hc => decide_eq_true (hall c hc)
          rw [hG.vValue_eq, List.nil_append, hself] at hsum
          rw [hsum]
          exact hlt
        case h_2 larger hsome =>
          rcases hG.larger_of_some larger hsome with h | ⟨hmem, hle⟩
          · cases h
          · exact .inr (SelectedFrom.single hmem
              (le_trans (Int.le_add_of_nonneg_right (le_of_lt MIN_CHANGE_pos)) hle))
      case isFalse hge =>
        -- the search runs on the small coins sorted by value, largest first
        generalize hV : (g.vValue.mergeSort fun a b => decide (a.nValue ≤ b.nValue)).reverse
          = vValue
        have hperm : vValue.Perm g.vValue := hV ▸ (List.reverse_perm _).trans (List.mergeSort_perm _ _)
        have hsumV : (vValue.map CInputCoin.nValue).sum = g.nTotalLower :=
          ((hperm.map _).sum_eq).trans hsum
        obtain ⟨hmask, hbest⟩ := searchBest_spec randbool₁ randbool₂ nTargetValue hsumV
          (le_of_lt (lt_of_le_of_ne (not_lt.mp hge) (Ne.symm hne)))
        generalize searchBest randbool₁ randbool₂ vValue g.nTotalLower nTargetValue = best
          at hmask hbest ⊢
        -- the subset the search found: sorted small coins, so coins of distinct outpoints
        have hsubset : SelectedFrom coins nTargetValue (true, insertCoins ([], 0) (select vValue best.1)) := by
          have hsel := select_sublist vValue best.1
          refine SelectedFrom.of_subset (fun c hc => hsub (hperm.subset (hsel.subset hc))) ?_ ?_
          · have hndV : (vValue.map CInputCoin.outpoint).Nodup :=
              (hperm.map _).nodup_iff.mpr (hnd.sublist hsubl)
            exact hndV.sublist (hsel.map _)
          · show nTargetValue ≤ maskSum CInputCoin.nValue vValue best.1
            rw [hmask]
            exact hbest
        split
        case h_1 larger hsome =>
          rcases hG.larger_of_some larger hsome with h | ⟨hmem, hle⟩
          · cases h
          split
          · exact .inr (SelectedFrom.single hmem
              (le_trans (Int.le_add_of_nonneg_right (le_of_lt MIN_CHANGE_pos)) hle))
          · exact .inr hsubset
        case h_2 => exact .inr hsubset

end Select

theorem SelectCoinsMinConf_correct (GetRandInt : Nat → Nat) (randbool₁ randbool₂ : Nat → Bool)
    (IsFromMe : CWalletTx → Bool) (TransactionWithinChainLimit : UInt256 → Nat → Bool)
    (nTargetValue nConfMine nConfTheirs : Int) (nMaxAncestors : Nat) (vCoins : List COutput)
    (hdistinct : (vCoins.map fun output => (CInputCoin.ofOutput output).outpoint).Nodup)
    (hvalue : ∀ output ∈ vCoins, 0 ≤ (CInputCoin.ofOutput output).nValue) :
    let passing := vCoins.filter
      (SelectCoinsFilter IsFromMe TransactionWithinChainLimit nConfMine nConfTheirs nMaxAncestors)
    let r := SelectCoinsMinConf GetRandInt randbool₁ randbool₂ IsFromMe
      TransactionWithinChainLimit nTargetValue nConfMine nConfTheirs nMaxAncestors vCoins
    (r.1 = true ↔
        nTargetValue ≤ (passing.map fun output => (CInputCoin.ofOutput output).nValue).sum) ∧
      (r.1 = true → (∀ coin ∈ r.2.1, coin ∈ passing.map CInputCoin.ofOutput) ∧
        r.2.2 = (r.2.1.map CInputCoin.nValue).sum ∧ nTargetValue ≤ r.2.2) := by
  dsimp only
  set filter := SelectCoinsFilter IsFromMe TransactionWithinChainLimit nConfMine nConfTheirs
    nMaxAncestors
  set coins := ((random_shuffle GetRandInt vCoins).filter filter).map CInputCoin.ofOutput
    with hcoins
  -- the shuffled outputs that pass the filter are the passing outputs, reordered
  have hperm : coins.Perm ((vCoins.filter filter).map CInputCoin.ofOutput) :=
    ((random_shuffle_perm GetRandInt vCoins).filter filter).map CInputCoin.ofOutput
  have hnd : (coins.map CInputCoin.outpoint).Nodup := (hperm.map _).nodup_iff.mpr (by
    rw [List.map_map]
    exact hdistinct.sublist (List.filter_sublist.map _))
  have hnonneg : ∀ c ∈ coins, 0 ≤ c.nValue := by
    intro c hc
    obtain ⟨output, hout, rfl⟩ := List.mem_map.mp (hperm.subset hc)
    exact hvalue output (List.mem_of_mem_filter hout)
  have hsum : (coins.map CInputCoin.nValue).sum =
      ((vCoins.filter filter).map fun output => (CInputCoin.ofOutput output).nValue).sum := by
    rw [(hperm.map _).sum_eq, List.map_map]
    rfl
  rcases SelectCoinsMinConf_cases GetRandInt randbool₁ randbool₂ IsFromMe
      TransactionWithinChainLimit nTargetValue nConfMine nConfTheirs nMaxAncestors vCoins hcoins hnd
    with ⟨hr, hlt⟩ | ⟨setCoins, hr, hsub, hndS, hle⟩
  case inl =>
    rw [hr]
    refine ⟨?_, nofun⟩
    rw [← hsum]
    exact iff_of_false Bool.false_ne_true (not_le.mpr hlt)
  case inr =>
    rw [hr]
    refine ⟨iff_of_true rfl ?_, fun _ => ⟨fun c hc => hperm.subset (hsub hc), rfl, hle⟩⟩
    rw [← hsum]
    exact le_trans hle (sum_le_of_subset hsub hndS hnonneg)

/-- A wallet transaction with three small outputs. -/
def smallCoinsTx : CWalletTx := ⟨UInt256.zero, [⟨2, []⟩, ⟨2, []⟩, ⟨3, []⟩]⟩

/-- The three spendable outputs of `smallCoinsTx`. -/
def smallCoinOutputs : List COutput :=
  [⟨smallCoinsTx, 0, 6, true, by decide⟩, ⟨smallCoinsTx, 1, 6, true, by decide⟩,
    ⟨smallCoinsTx, 2, 6, true, by decide⟩]

/-- Three coins below the target, together above it: none is taken at once, and with no
larger coin the selection is the best subset of `ApproximateBestSubset`. -/
theorem SelectCoinsMinConf_correct_small_coins :
    (∃ g, gatherCoins (SelectCoinsFilter (fun _ => true) (fun _ _ => true) 1 1 0) 5
        (random_shuffle (fun k => k % 2) smallCoinOutputs) ⟨none, [], 0⟩ = .inr g ∧
      g.coinLowestLarger = none ∧ 5 < g.nTotalLower) ∧
    let passing := smallCoinOutputs.filter (SelectCoinsFilter (fun _ => true) (fun _ _ => true) 1 1 0)
    let r := SelectCoinsMinConf (fun k => k % 2) (fun k => k % 3 == 0) (fun _ => true) (fun _ => true)
      (fun _ _ => true) 5 1 1 0 smallCoinOutputs
    (r.1 = true ↔ 5 ≤ (passing.map fun output => (CInputCoin.ofOutput output).nValue).sum) ∧
      (r.1 = true → (∀ coin ∈ r.2.1, coin ∈ passing.map CInputCoin.ofOutput) ∧
        r.2.2 = (r.2.1.map CInputCoin.nValue).sum ∧ 5 ≤ r.2.2) :=
  ⟨⟨_, rfl, rfl, by decide⟩,
    SelectCoinsMinConf_correct (fun k => k % 2) (fun k => k % 3 == 0) (fun _ => true) (fun _ => true)
      (fun _ _ => true) 5 1 1 0 smallCoinOutputs (by decide) (by decide)⟩

end BitcoinPQ

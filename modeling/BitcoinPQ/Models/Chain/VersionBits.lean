import BitcoinPQ.Core.Memo
import BitcoinPQ.Models.Chain.BlockIndex
import BitcoinPQ.Models.Chain.Params

/-!
# Version bits

`versionbits.cpp`: the BIP9 state of a deployment for the block after `pindexPrev`.
`GetStateFor` rounds `pindexPrev` down to the last block of the period before, walks back
a period at a time until the cache holds the block or its state is known (the parent of
the genesis block, or a block before the start time), then replays the transitions
forward and stores each state. The walk is an instance of `Memo.back` and `Memo.forward`.

The reference is BIP9 by whole periods, `bip9State`: the transitions of the periods of
the chain from the genesis block. When the median time past does not decrease along the
chain and the start time is not after the timeout, every entry a walk stores is the
reference state of its key, so that `GetStateFor` returns the reference state whatever
earlier calls left in the cache.
-/

namespace BitcoinPQ

/-- `ThresholdState`. -/
inductive ThresholdState where
  | THRESHOLD_DEFINED
  | THRESHOLD_STARTED
  | THRESHOLD_LOCKED_IN
  | THRESHOLD_ACTIVE
  | THRESHOLD_FAILED
  deriving DecidableEq, Repr

open ThresholdState

/-- `ThresholdConditionCache`: a state for the blocks after `pindexPrev`, keyed by
`pindexPrev`, with `nullptr` as `none`. -/
abbrev ThresholdConditionCache := Memo.Cache (Option CBlockIndex) ThresholdState

/-- The median time past does not decrease from a block to its child, along the chain
of `p`. -/
def MedianTimeMonotone (p : CBlockIndex) : Prop :=
  ∀ i a q, p.back i = some a → a.pprev = some q → q.GetMedianTimePast ≤ a.GetMedianTimePast

/-- The genesis block has no parent to be earlier than. -/
theorem MedianTimeMonotone.genesis (e : BlockEntry) : MedianTimeMonotone ⟨e, []⟩ := by
  intro i a q hi hq
  cases i with
  | zero =>
    cases hi
    cases hq
  | succ i => cases hi

theorem MedianTimeMonotone.back {p a : CBlockIndex} {i : ℕ} (h : MedianTimeMonotone p)
    (hi : p.back i = some a) : MedianTimeMonotone a := by
  intro j b q hb hq
  apply h (i + j) b q _ hq
  rw [CBlockIndex.back_add, hi]
  exact hb

/-- Along a chain whose median time past does not decrease, no ancestor's is later. -/
theorem MedianTimeMonotone.le {p a : CBlockIndex} {i : ℕ} (h : MedianTimeMonotone p)
    (hi : p.back i = some a) : a.GetMedianTimePast ≤ p.GetMedianTimePast := by
  induction i generalizing p with
  | zero =>
    cases hi
    exact le_rfl
  | succ i ih =>
    rw [CBlockIndex.back] at hi
    obtain ⟨r, hr, ha⟩ := Option.bind_eq_some_iff.mp hi
    have hr1 : p.back 1 = some r := by rw [CBlockIndex.back, hr]; rfl
    calc a.GetMedianTimePast ≤ r.GetMedianTimePast := ih (h.back hr1) ha
      _ ≤ p.GetMedianTimePast := h 0 p r rfl hr

/-- A block no earlier than its parent extends a chain whose median time past does not
decrease. -/
theorem MedianTimeMonotone.of_pprev {p q : CBlockIndex} (hq : p.pprev = some q)
    (hle : q.GetMedianTimePast ≤ p.GetMedianTimePast) (h : MedianTimeMonotone q) : MedianTimeMonotone p := by
  intro i a r hi hr
  cases i with
  | zero =>
    cases hi
    rw [hq] at hr
    cases hr
    exact hle
  | succ i =>
    rw [CBlockIndex.back, hq, Option.bind_some] at hi
    exact h i a r hi hr

/-- `MedianTimeMonotone` checked block by block, from the entry `e` down its ancestors. -/
def medianTimeMonotoneCheck : BlockEntry → List BlockEntry → Bool
  | _, [] => true
  | e, e' :: es =>
    decide ((⟨e', es⟩ : CBlockIndex).GetMedianTimePast ≤ (⟨e, e' :: es⟩ : CBlockIndex).GetMedianTimePast) &&
      medianTimeMonotoneCheck e' es

theorem medianTimeMonotone_iff_check (p : CBlockIndex) :
    MedianTimeMonotone p ↔ medianTimeMonotoneCheck p.entry p.ancestors = true := by
  obtain ⟨e, es⟩ := p
  induction es generalizing e with
  | nil => exact iff_of_true (MedianTimeMonotone.genesis e) rfl
  | cons e' es ih =>
    rw [medianTimeMonotoneCheck, Bool.and_eq_true, decide_eq_true_iff, ← ih]
    constructor
    · intro h
      exact ⟨h 0 _ _ rfl rfl, h.back (i := 1) rfl⟩
    · rintro ⟨hle, h⟩
      exact MedianTimeMonotone.of_pprev rfl hle h

instance : DecidablePred MedianTimeMonotone := fun p =>
  decidable_of_iff _ (medianTimeMonotone_iff_check p).symm

/-- `AbstractThresholdConditionChecker`: its five virtual methods; `Period` and `Threshold`
return an `int`. -/
structure AbstractThresholdConditionChecker where
  Condition : CBlockIndex → Consensus.Params → Bool
  BeginTime : Consensus.Params → Int
  EndTime : Consensus.Params → Int
  Period : Consensus.Params → Int
  Threshold : Consensus.Params → Int

namespace AbstractThresholdConditionChecker

/-! ## `GetStateFor` -/

/-- The counting loop of the `THRESHOLD_STARTED` case: `i` more blocks from
`pindexCount` along `pprev`; `for (int i = 0; i < nPeriod; i++)` runs `nPeriod.toNat`
rounds. From the last block of a period, `pprev` is never `nullptr` before the last
round. -/
def countLoop (checker : AbstractThresholdConditionChecker) (params : Consensus.Params) :
    ℕ → Option CBlockIndex → ℕ → ℕ
  | 0, _, count => count
  | _ + 1, none, count => count
  | i + 1, some pindexCount, count =>
    countLoop checker params i pindexCount.pprev
      (if checker.Condition pindexCount params then count + 1 else count)

/-- The `switch` of the forward walk: the state of the next period from that of the
period whose last block is `pindexPrev`. -/
def nextState (checker : AbstractThresholdConditionChecker) (params : Consensus.Params)
    (state : ThresholdState) (pindexPrev : CBlockIndex) : ThresholdState :=
  let nPeriod := checker.Period params
  let nThreshold := checker.Threshold params
  let nTimeStart := checker.BeginTime params
  let nTimeTimeout := checker.EndTime params
  match state with
  | THRESHOLD_DEFINED =>
    if pindexPrev.GetMedianTimePast ≥ nTimeTimeout then THRESHOLD_FAILED
    else if pindexPrev.GetMedianTimePast ≥ nTimeStart then THRESHOLD_STARTED
    else THRESHOLD_DEFINED
  | THRESHOLD_STARTED =>
    if pindexPrev.GetMedianTimePast ≥ nTimeTimeout then THRESHOLD_FAILED
    else if (checker.countLoop params nPeriod.toNat (some pindexPrev) 0 : Int) ≥ nThreshold then
      THRESHOLD_LOCKED_IN
    else THRESHOLD_STARTED
  -- always progresses into `ACTIVE`
  | THRESHOLD_LOCKED_IN => THRESHOLD_ACTIVE
  -- terminal states
  | THRESHOLD_FAILED => THRESHOLD_FAILED
  | THRESHOLD_ACTIVE => THRESHOLD_ACTIVE

/-- Where the backward walk ends without a cached entry: the genesis block is by
definition `DEFINED`, and so is every block before the start time. -/
def knownState (checker : AbstractThresholdConditionChecker) (params : Consensus.Params) :
    Option CBlockIndex → Option ThresholdState
  | none => some THRESHOLD_DEFINED
  | some p => if p.GetMedianTimePast < checker.BeginTime params then some THRESHOLD_DEFINED else none

/-- One step of the backward walk: the last block of the period before. -/
def periodBack (checker : AbstractThresholdConditionChecker) (params : Consensus.Params)
    (pindexPrev : Option CBlockIndex) : Option CBlockIndex :=
  pindexPrev.bind fun p => p.GetAncestor (p.nHeight - checker.Period params)

/-- One step of the forward walk; the stack never holds `nullptr`. -/
def forwardStep (checker : AbstractThresholdConditionChecker) (params : Consensus.Params) :
    Option CBlockIndex → ThresholdState → ThresholdState
  | none, state => state
  | some p, state => checker.nextState params state p

/-- The block whose state is that of the block after `pindexPrev`: the last block of the
period before, as the state of a block is that of the first of its period. -/
def lastOfPeriodBefore (checker : AbstractThresholdConditionChecker) (params : Consensus.Params)
    (pindexPrev : Option CBlockIndex) : Option CBlockIndex :=
  pindexPrev.bind fun p => p.GetAncestor (p.nHeight - (p.nHeight + 1 : Int).tmod (checker.Period params))

/-- Enough steps for the backward walk, which takes at most one per period. -/
def walkFuel : Option CBlockIndex → ℕ
  | none => 1
  | some p => p.nHeight + 2

/-- `AbstractThresholdConditionChecker::GetStateFor`: the state and the cache after the
call. -/
def GetStateFor (checker : AbstractThresholdConditionChecker) (pindexPrev : Option CBlockIndex)
    (params : Consensus.Params) (cache : ThresholdConditionCache) :
    ThresholdState × ThresholdConditionCache :=
  if checker.BeginTime params = Consensus.ALWAYS_ACTIVE then (THRESHOLD_ACTIVE, cache)
  else
    let pindexPrev := checker.lastOfPeriodBefore params pindexPrev
    let (cache, pindexPrev, vToCompute) :=
      Memo.back (checker.knownState params) (checker.periodBack params) (walkFuel pindexPrev)
        cache pindexPrev []
    -- `assert(cache.count(pindexPrev))`: the default is never read
    let state := (cache pindexPrev).getD THRESHOLD_DEFINED
    let (cache, state) := Memo.forward (checker.forwardStep params) cache state vToCompute
    (state, cache)

/-! ## BIP9 by whole periods -/

/-- The number of blocks of a period. -/
def periodLength (checker : AbstractThresholdConditionChecker) (params : Consensus.Params) : ℕ :=
  (checker.Period params).toNat

/-- BIP9's transition at the end of a period, from the median time past of its last
block and the number of its blocks that signal. -/
def bip9Transition (nTimeStart nTimeTimeout : Int) (nThreshold : Int) (mtp : Int) (signals : ℕ) :
    ThresholdState → ThresholdState
  | THRESHOLD_DEFINED =>
    if nTimeTimeout ≤ mtp then THRESHOLD_FAILED
    else if nTimeStart ≤ mtp then THRESHOLD_STARTED
    else THRESHOLD_DEFINED
  | THRESHOLD_STARTED =>
    if nTimeTimeout ≤ mtp then THRESHOLD_FAILED
    else if nThreshold ≤ signals then THRESHOLD_LOCKED_IN
    else THRESHOLD_STARTED
  | THRESHOLD_LOCKED_IN => THRESHOLD_ACTIVE
  | THRESHOLD_FAILED => THRESHOLD_FAILED
  | THRESHOLD_ACTIVE => THRESHOLD_ACTIVE

/-- The blocks of the period that ends at `p` that signal: `p` and the blocks before it,
`Period` in all. -/
def signals (checker : AbstractThresholdConditionChecker) (params : Consensus.Params) (p : CBlockIndex) : ℕ :=
  ((List.range (checker.periodLength params)).filterMap fun i => p.back i).countP fun q => checker.Condition q params

/-- The last block of the `j`-th period of the chain of `p`, at height `j * Period - 1`. -/
def periodEnd (checker : AbstractThresholdConditionChecker) (params : Consensus.Params) (p : CBlockIndex)
    (j : ℕ) : Option CBlockIndex :=
  p.back (p.nHeight + 1 - j * checker.periodLength params)

/-- The state after the first `j` periods of the chain of `p`. -/
def stateAfter (checker : AbstractThresholdConditionChecker) (params : Consensus.Params) (p : CBlockIndex) :
    ℕ → ThresholdState
  | 0 => THRESHOLD_DEFINED
  | j + 1 =>
    match checker.periodEnd params p (j + 1) with
    | some e =>
      bip9Transition (checker.BeginTime params) (checker.EndTime params) (checker.Threshold params)
        e.GetMedianTimePast (checker.signals params e) (checker.stateAfter params p j)
    | none => checker.stateAfter params p j

/-- The BIP9 state of the block after `pindexPrev`: the state after the whole periods
before it; the genesis block is `DEFINED`. -/
def bip9State (checker : AbstractThresholdConditionChecker) (params : Consensus.Params) :
    Option CBlockIndex → ThresholdState
  | none => THRESHOLD_DEFINED
  | some p => checker.stateAfter params p ((p.nHeight + 1) / checker.periodLength params)

/-! ## The code computes BIP9 -/

section Refinement

variable {checker : AbstractThresholdConditionChecker} {params : Consensus.Params}

theorem periodLength_pos (hn : 0 < checker.Period params) : 0 < checker.periodLength params := by
  unfold periodLength
  omega

theorem periodLength_cast (hn : 0 < checker.Period params) :
    (checker.periodLength params : Int) = checker.Period params := by
  unfold periodLength
  omega

theorem countLoop_none (n count : ℕ) : checker.countLoop params n none count = count := by
  cases n <;> rfl

/-- The counting loop counts the blocks that signal among `n` from `p` back. -/
theorem countLoop_eq (n : ℕ) (p : CBlockIndex) (count : ℕ) :
    checker.countLoop params n (some p) count =
      count + ((List.range n).filterMap fun i => p.back i).countP fun q => checker.Condition q params := by
  induction n generalizing p count with
  | zero => rfl
  | succ n ih =>
    have hsplit : ((List.range (n + 1)).filterMap fun i => p.back i) =
        p :: (List.range n).filterMap fun i => p.pprev.bind (CBlockIndex.back i) := by
      rw [List.range_succ_eq_map, List.filterMap_cons, List.filterMap_map]
      rfl
    rw [hsplit, List.countP_cons, countLoop]
    -- the walk stops at the genesis block or goes on at the parent
    cases hp : p.pprev with
    | none =>
      simp only [countLoop_none, Option.bind_none, List.filterMap_none, List.countP_nil, Nat.zero_add]
      cases checker.Condition p params
      · rfl
      · rfl
    | some r =>
      simp only [Option.bind_some]
      rw [ih]
      cases checker.Condition p params
      · simp only [Bool.false_eq_true, if_false]
        omega
      · simp only [if_true]
        omega

theorem countLoop_eq_signals (p : CBlockIndex) :
    checker.countLoop params (checker.Period params).toNat (some p) 0 = checker.signals params p := by
  rw [countLoop_eq, Nat.zero_add, signals, periodLength]

theorem nextState_eq (state : ThresholdState) (p : CBlockIndex) :
    checker.nextState params state p =
      bip9Transition (checker.BeginTime params) (checker.EndTime params) (checker.Threshold params)
        p.GetMedianTimePast (checker.signals params p) state := by
  cases state <;> simp only [nextState, bip9Transition, ge_iff_le, countLoop_eq_signals]

/-- An ancestor's periods end at the same blocks, as far as its chain goes. -/
theorem periodEnd_of_back {p a : CBlockIndex} {i j : ℕ} (hi : p.back i = some a)
    (hj : j * checker.periodLength params ≤ a.nHeight + 1) :
    checker.periodEnd params a j = checker.periodEnd params p j := by
  have hh := CBlockIndex.nHeight_back hi
  have hidx : p.nHeight + 1 - j * checker.periodLength params =
      i + (a.nHeight + 1 - j * checker.periodLength params) := by
    omega
  rw [periodEnd, periodEnd, hidx, CBlockIndex.back_add, hi]
  rfl

/-- The state after `j` periods is the same on the chain of a block and of an ancestor
that has them. -/
theorem stateAfter_of_back {p a : CBlockIndex} {i : ℕ} (hi : p.back i = some a) :
    ∀ {j : ℕ}, j * checker.periodLength params ≤ a.nHeight + 1 →
      checker.stateAfter params a j = checker.stateAfter params p j
  | 0, _ => rfl
  | j + 1, hj => by
    have hj' : j * checker.periodLength params ≤ a.nHeight + 1 :=
      le_trans (Nat.mul_le_mul_right _ (Nat.le_succ j)) hj
    rw [stateAfter, stateAfter, periodEnd_of_back hi hj, stateAfter_of_back hi hj']

/-- The reference state of the ancestor at height `m - 1` is the state after its whole
periods, read on the chain of the descendant. -/
theorem bip9State_GetAncestor (p : CBlockIndex) {height : Int} {m : ℕ}
    (hm : m ≤ p.nHeight + 1) (hheight : height + 1 = m) :
    checker.bip9State params (p.GetAncestor height) =
      checker.stateAfter params p (m / checker.periodLength params) := by
  cases m with
  | zero =>
    rw [CBlockIndex.GetAncestor_of_neg (by omega), Nat.zero_div]
    rfl
  | succ m =>
    obtain ⟨a, ha⟩ := CBlockIndex.exists_back (show p.nHeight - m ≤ p.nHeight by omega)
    have hh := CBlockIndex.nHeight_back ha
    have hheight' : height = (m : Int) := by omega
    rw [hheight', CBlockIndex.GetAncestor_of_le (Int.natCast_nonneg m) (by omega), Int.toNat_natCast, ha,
      bip9State, show a.nHeight + 1 = m + 1 by omega]
    exact stateAfter_of_back ha (by rw [show a.nHeight + 1 = m + 1 by omega]; exact Nat.div_mul_le_self _ _)

/-- For a positive period, the `%` of `int`s in the rounding is that of natural numbers. -/
theorem lastOfPeriodBefore_some (hn : 0 < checker.Period params) (p : CBlockIndex) :
    checker.lastOfPeriodBefore params (some p) =
      p.GetAncestor (p.nHeight - ((p.nHeight + 1) % checker.periodLength params : ℕ)) := by
  rw [lastOfPeriodBefore, Option.bind_some, Int.tmod_eq_emod_of_nonneg (by omega), ← periodLength_cast hn,
    Int.natCast_mod, Int.natCast_add, Int.natCast_one]

/-- Rounding down to the last block of the period before keeps the reference state. -/
theorem bip9State_lastOfPeriodBefore (hn : 0 < checker.Period params) (pindexPrev : Option CBlockIndex) :
    checker.bip9State params (checker.lastOfPeriodBefore params pindexPrev) = checker.bip9State params pindexPrev := by
  cases pindexPrev with
  | none => rfl
  | some p =>
    have hdm := Nat.div_add_mod (p.nHeight + 1) (checker.periodLength params)
    generalize hq : (p.nHeight + 1) / checker.periodLength params = q at hdm
    generalize hr : (p.nHeight + 1) % checker.periodLength params = r at hdm
    generalize hM : checker.periodLength params * q = M at hdm
    rw [lastOfPeriodBefore_some hn, hr, bip9State_GetAncestor p (m := M) (by omega) (by omega),
      ← hM, Nat.mul_div_cancel_left _ (periodLength_pos hn), bip9State, hq]

theorem periodBack_of_lt {b : CBlockIndex} (h : b.nHeight < checker.periodLength params) :
    checker.periodBack params (some b) = none :=
  CBlockIndex.GetAncestor_of_neg (by unfold periodLength at h; omega)

theorem periodBack_of_le (hn : 0 < checker.Period params) {b : CBlockIndex}
    (h : checker.periodLength params ≤ b.nHeight) :
    checker.periodBack params (some b) = b.back (checker.periodLength params) := by
  have hP := periodLength_cast hn
  rw [periodBack, Option.bind_some, CBlockIndex.GetAncestor_of_le (by omega) (by omega)]
  congr 1
  omega

/-- At the last block of a period, the reference state is the transition from that of
the last block of the period before. -/
theorem bip9State_periodBack (hn : 0 < checker.Period params) {b : CBlockIndex}
    (hb : (b.nHeight + 1) % checker.periodLength params = 0) :
    checker.bip9State params (some b) =
      checker.forwardStep params (some b) (checker.bip9State params (checker.periodBack params (some b))) := by
  have hP := periodLength_cast hn
  have hdm := Nat.div_add_mod (b.nHeight + 1) (checker.periodLength params)
  rw [hb, Nat.add_zero] at hdm
  -- `b` ends period `j + 1`
  obtain ⟨j, hj⟩ : ∃ j, (b.nHeight + 1) / checker.periodLength params = j + 1 :=
    Nat.exists_eq_add_one.mpr (Nat.pos_of_ne_zero fun h0 => by rw [h0, Nat.mul_zero] at hdm; omega)
  rw [hj, Nat.mul_succ] at hdm
  generalize hM : checker.periodLength params * j = M at hdm
  have hprev : checker.bip9State params (checker.periodBack params (some b)) = checker.stateAfter params b j := by
    rw [periodBack, Option.bind_some, bip9State_GetAncestor b (m := M) (by omega) (by omega), ← hM,
      Nat.mul_div_cancel_left _ (periodLength_pos hn)]
  have hend : checker.periodEnd params b (j + 1) = some b := by
    rw [periodEnd, Nat.succ_mul, Nat.mul_comm j, hM,
      show b.nHeight + 1 - (M + checker.periodLength params) = 0 by omega]
    rfl
  rw [hprev, bip9State, hj, stateAfter, hend, forwardStep, nextState_eq]

/-- Before the start time, and so before the timeout, every period of a chain whose
median time past does not decrease stays `DEFINED`. -/
theorem stateAfter_of_lt_start (ht : checker.BeginTime params ≤ checker.EndTime params) {p : CBlockIndex}
    (hmono : MedianTimeMonotone p) (hlt : p.GetMedianTimePast < checker.BeginTime params) :
    ∀ j, checker.stateAfter params p j = THRESHOLD_DEFINED
  | 0 => rfl
  | j + 1 => by
    rw [stateAfter]
    cases he : checker.periodEnd params p (j + 1) with
    | none => exact stateAfter_of_lt_start ht hmono hlt j
    | some e =>
      have hle := hmono.le he
      dsimp only
      rw [stateAfter_of_lt_start ht hmono hlt j, bip9Transition, if_neg (by omega), if_neg (by omega)]

/-- `GetStateFor` returns the reference state and leaves a cache that agrees with it,
from a cache that agrees with it. -/
theorem GetStateFor_spec (hn : 0 < checker.Period params) (hstart : checker.BeginTime params ≠ Consensus.ALWAYS_ACTIVE)
    (ht : checker.BeginTime params ≤ checker.EndTime params) {pindexPrev : Option CBlockIndex}
    (hmono : ∀ p ∈ pindexPrev, MedianTimeMonotone p) {cache : ThresholdConditionCache}
    (hc : Memo.Agrees (checker.bip9State params) cache) :
    (checker.GetStateFor pindexPrev params cache).1 = checker.bip9State params pindexPrev ∧
      Memo.Agrees (checker.bip9State params) (checker.GetStateFor pindexPrev params cache).2 := by
  -- the keys of the walk: the last blocks of periods, on a chain whose median time past
  -- does not decrease
  let P : Option CBlockIndex → Prop := fun k =>
    ∀ b ∈ k, (b.nHeight + 1) % checker.periodLength params = 0 ∧ MedianTimeMonotone b
  let rank : Option CBlockIndex → ℕ := fun k => k.elim 0 fun b => b.nHeight + 1
  have hstop : ∀ k v, P k → checker.knownState params k = some v → checker.bip9State params k = v := by
    intro k v hk hv
    cases k with
    | none =>
      cases hv
      rfl
    | some b =>
      rw [knownState] at hv
      split at hv
      · cases hv
        exact stateAfter_of_lt_start ht (hk b rfl).2 ‹_› _
      · cases hv
  have hnext : ∀ k, P k → checker.knownState params k = none →
      checker.bip9State params k = checker.forwardStep params k (checker.bip9State params (checker.periodBack params k)) := by
    intro k hk hv
    cases k with
    | none => cases hv
    | some b => exact bip9State_periodBack hn (hk b rfl).1
  have hpred : ∀ k, P k → checker.knownState params k = none → P (checker.periodBack params k) := by
    intro k hk _
    cases k with
    | none => exact fun b hb => by cases hb
    | some b =>
      obtain ⟨hb, hbmono⟩ := hk b rfl
      by_cases hlt : b.nHeight < checker.periodLength params
      · rw [periodBack_of_lt hlt]
        exact fun a ha => by cases ha
      · intro a ha
        rw [periodBack_of_le hn (Nat.le_of_not_lt hlt)] at ha
        have hh := CBlockIndex.nHeight_back ha
        refine ⟨?_, hbmono.back ha⟩
        rw [show a.nHeight + 1 = b.nHeight + 1 - checker.periodLength params by omega,
          Nat.sub_mod_eq_zero_of_mod_eq]
        rw [hb, Nat.mod_self]
  have hrank : ∀ k, P k → checker.knownState params k = none → rank (checker.periodBack params k) < rank k := by
    intro k _ hv
    cases k with
    | none => cases hv
    | some b =>
      by_cases hlt : b.nHeight < checker.periodLength params
      · rw [periodBack_of_lt hlt]
        exact Nat.succ_pos _
      · cases ha : b.back (checker.periodLength params) with
        | none => rw [periodBack_of_le hn (Nat.le_of_not_lt hlt), ha]; exact Nat.succ_pos _
        | some a =>
          have hh := CBlockIndex.nHeight_back ha
          have hL := periodLength_pos hn
          rw [periodBack_of_le hn (Nat.le_of_not_lt hlt), ha]
          show a.nHeight + 1 < b.nHeight + 1
          omega
  -- the walk starts at the last block of the period before
  have hk : P (checker.lastOfPeriodBefore params pindexPrev) := by
    cases pindexPrev with
    | none => exact fun b hb => by cases hb
    | some p =>
      intro b hb
      rw [Option.mem_def, lastOfPeriodBefore_some hn] at hb
      obtain ⟨i, hi, hbh⟩ := CBlockIndex.GetAncestor_eq_some hb
      refine ⟨?_, (hmono p rfl).back hi⟩
      have hdm := Nat.div_add_mod (p.nHeight + 1) (checker.periodLength params)
      have hle := Nat.mod_le (p.nHeight + 1) (checker.periodLength params)
      rw [show b.nHeight + 1 = checker.periodLength params * ((p.nHeight + 1) / checker.periodLength params) by
        omega]
      exact Nat.mul_mod_right _ _
  have hfuel : rank (checker.lastOfPeriodBefore params pindexPrev) < walkFuel (checker.lastOfPeriodBefore params pindexPrev) := by
    cases checker.lastOfPeriodBefore params pindexPrev with
    | none => exact Nat.one_pos
    | some b => exact Nat.lt_succ_self _
  obtain ⟨hres, hagree⟩ := Memo.back_forward_spec P rank hstop hnext hpred hrank hc hk hfuel THRESHOLD_DEFINED
  rw [bip9State_lastOfPeriodBefore hn] at hres
  rw [GetStateFor, if_neg hstart]
  exact ⟨hres, hagree⟩

/-- The cache after `GetStateFor` calls on `history`, in order, from `cache`. -/
def cacheAfterFrom (checker : AbstractThresholdConditionChecker) (params : Consensus.Params)
    (cache : ThresholdConditionCache) (history : List (Option CBlockIndex)) : ThresholdConditionCache :=
  history.foldl (fun cache q => (checker.GetStateFor q params cache).2) cache

/-- Every call of a history on chains whose median time past does not decrease leaves a
cache that agrees with the reference. -/
theorem agrees_cacheAfterFrom (hn : 0 < checker.Period params)
    (hstart : checker.BeginTime params ≠ Consensus.ALWAYS_ACTIVE) (ht : checker.BeginTime params ≤ checker.EndTime params) :
    ∀ {history : List (Option CBlockIndex)} {cache : ThresholdConditionCache},
      (∀ q ∈ history, ∀ b ∈ q, MedianTimeMonotone b) → Memo.Agrees (checker.bip9State params) cache →
      Memo.Agrees (checker.bip9State params) (checker.cacheAfterFrom params cache history)
  | [], _, _, hc => hc
  | q :: qs, cache, hmono, hc => by
    have hq := (GetStateFor_spec hn hstart ht (hmono q (List.mem_cons_self ..)) hc).2
    show Memo.Agrees _ (checker.cacheAfterFrom params (checker.GetStateFor q params cache).2 qs)
    exact agrees_cacheAfterFrom hn hstart ht (fun q' (hq' : q' ∈ qs) => hmono q' (List.mem_cons_of_mem _ hq')) hq

end Refinement

/-- The cache after `GetStateFor` calls on `history`, in order, from an empty cache. -/
def cacheAfter (checker : AbstractThresholdConditionChecker) (params : Consensus.Params)
    (history : List (Option CBlockIndex)) : ThresholdConditionCache :=
  checker.cacheAfterFrom params (fun _ => none) history

/-- Whatever earlier calls filled the cache, `GetStateFor` returns the BIP9 state by whole
periods, the same for the blocks of one period, when the period is not empty, the start
time is not `ALWAYS_ACTIVE` and not after the timeout, and the median time past does not
decrease along the chains asked about. -/
theorem GetStateFor_eq_bip9State (checker : AbstractThresholdConditionChecker) (params : Consensus.Params)
    (hperiod : 0 < checker.Period params) (hstart : checker.BeginTime params ≠ Consensus.ALWAYS_ACTIVE)
    (htimeout : checker.BeginTime params ≤ checker.EndTime params)
    (history : List (Option CBlockIndex)) (hhistory : ∀ q ∈ history, ∀ b ∈ q, MedianTimeMonotone b)
    (pindexPrev : Option CBlockIndex) (hprev : ∀ b ∈ pindexPrev, MedianTimeMonotone b) :
    (checker.GetStateFor pindexPrev params (checker.cacheAfter params history)).1 =
        checker.bip9State params pindexPrev ∧
      ∀ p ∈ pindexPrev, ∀ i q, p.back i = some q →
        ((q.nHeight : Int) + 1) / checker.Period params = ((p.nHeight : Int) + 1) / checker.Period params →
        (checker.GetStateFor (some q) params (checker.cacheAfter params history)).1 =
          (checker.GetStateFor pindexPrev params (checker.cacheAfter params history)).1 := by
  have hc : Memo.Agrees (checker.bip9State params) (checker.cacheAfter params history) :=
    agrees_cacheAfterFrom hperiod hstart htimeout hhistory (Memo.agrees_empty _)
  have hstate := (GetStateFor_spec hperiod hstart htimeout hprev hc).1
  refine ⟨hstate, ?_⟩
  intro p hp i q hi hperiodq
  cases hp
  have hsame : (q.nHeight + 1) / checker.periodLength params = (p.nHeight + 1) / checker.periodLength params := by
    rw [← periodLength_cast hperiod] at hperiodq
    apply Int.natCast_inj.mp
    rw [Int.natCast_ediv, Int.natCast_ediv, Int.natCast_add, Int.natCast_add, Int.natCast_one]
    exact hperiodq
  have hqmono : ∀ b ∈ some q, MedianTimeMonotone b := fun b hb => by
    cases hb
    exact (hprev p rfl).back hi
  -- both read the state after the same whole periods of the chain of `p`
  rw [(GetStateFor_spec hperiod hstart htimeout hqmono hc).1, hstate, bip9State, bip9State, hsame]
  apply stateAfter_of_back hi
  rw [← hsame]
  exact Nat.div_mul_le_self _ _

end AbstractThresholdConditionChecker

/-! ## Deployments -/

/-- `VERSIONBITS_TOP_BITS`. -/
def VERSIONBITS_TOP_BITS : Int32 := 0x20000000

/-- `VERSIONBITS_TOP_MASK`: `0xE0000000UL` as an `int32_t`. -/
def VERSIONBITS_TOP_MASK : Int32 := 0xE0000000

/-- `VersionBitsMask`: the bit of the deployment. -/
def VersionBitsMask (params : Consensus.Params) (pos : Consensus.DeploymentPos) : UInt32 :=
  1 <<< (params.vDeployments pos).bit.toNat.toUInt32

/-- `VersionBitsConditionChecker`: a block signals when its version has the top bits of
version bits and the deployment's bit. `Period` and `Threshold` return the `uint32_t`
parameters as `int`s, which reads one of `2 ^ 31` or more as negative. -/
def VersionBitsConditionChecker (id : Consensus.DeploymentPos) : AbstractThresholdConditionChecker where
  Condition pindex params :=
    (pindex.entry.nMinorVersion &&& VERSIONBITS_TOP_MASK) == VERSIONBITS_TOP_BITS &&
      (pindex.entry.nMinorVersion.toUInt32 &&& VersionBitsMask params id) != 0
  BeginTime params := (params.vDeployments id).nStartTime
  EndTime params := (params.vDeployments id).nTimeout
  Period params := Int.bmod params.nMinerConfirmationWindow (2 ^ 32)
  Threshold params := Int.bmod params.nRuleChangeActivationThreshold (2 ^ 32)

/-- `VersionBitsCache`: one cache per deployment. -/
abbrev VersionBitsCache := Consensus.DeploymentPos → ThresholdConditionCache

/-- `VersionBitsState`: `GetStateFor` on the deployment's own cache. -/
def VersionBitsState (pindexPrev : Option CBlockIndex) (params : Consensus.Params) (pos : Consensus.DeploymentPos)
    (cache : VersionBitsCache) : ThresholdState × VersionBitsCache :=
  let (state, c) := (VersionBitsConditionChecker pos).GetStateFor pindexPrev params (cache pos)
  (state, Function.update cache pos c)

/-- A window below `2 ^ 31` keeps its value as an `int`. -/
theorem VersionBitsConditionChecker_Period {params : Consensus.Params} (pos : Consensus.DeploymentPos)
    (h : params.nMinerConfirmationWindow < 2 ^ 31) :
    (VersionBitsConditionChecker pos).Period params = params.nMinerConfirmationWindow := by
  dsimp only [VersionBitsConditionChecker]
  apply Int.bmod_eq_of_le <;> omega

/-- `VersionBitsState` returns the deployment's BIP9 state by whole periods and keeps every
deployment's cache in agreement with its reference. -/
theorem VersionBitsState_spec {params : Consensus.Params} {pos : Consensus.DeploymentPos}
    (hn : 0 < params.nMinerConfirmationWindow) (hwindow : params.nMinerConfirmationWindow < 2 ^ 31) (hstart : (params.vDeployments pos).nStartTime ≠ Consensus.ALWAYS_ACTIVE)
    (ht : (params.vDeployments pos).nStartTime ≤ (params.vDeployments pos).nTimeout)
    {pindexPrev : Option CBlockIndex} (hmono : ∀ b ∈ pindexPrev, MedianTimeMonotone b) {cache : VersionBitsCache}
    (hc : ∀ d, Memo.Agrees ((VersionBitsConditionChecker d).bip9State params) (cache d)) :
    (VersionBitsState pindexPrev params pos cache).1 = (VersionBitsConditionChecker pos).bip9State params pindexPrev ∧
      ∀ d, Memo.Agrees ((VersionBitsConditionChecker d).bip9State params) ((VersionBitsState pindexPrev params pos cache).2 d) := by
  obtain ⟨hstate, hagree⟩ :=
    @AbstractThresholdConditionChecker.GetStateFor_spec (VersionBitsConditionChecker pos) _
      (by rw [VersionBitsConditionChecker_Period pos hwindow]; omega) hstart ht _ hmono _ (hc pos)
  refine ⟨hstate, fun d => ?_⟩
  -- only the deployment's own cache changes
  show Memo.Agrees _ (Function.update cache pos
    ((VersionBitsConditionChecker pos).GetStateFor pindexPrev params (cache pos)).2 d)
  by_cases hd : d = pos
  · subst hd
    rw [Function.update_self]
    exact hagree
  · rw [Function.update_of_ne hd]
    exact hc d

/-- Block `k` of a chain with a block every 100 seconds, each signalling bit 0. -/
def signalEntry (k : ℕ) : BlockEntry := ⟨UInt256.zero, 0, 0x20000001, UInt32.ofNat (100 * k), 0⟩

/-- The chain from the genesis block up to block `k`. -/
def signalChain (k : ℕ) : CBlockIndex := ⟨signalEntry k, (List.range k).reverse.map signalEntry⟩

/-- Periods of two blocks, one signal to lock in, and deployments that start at 100 s. -/
def signalParams : Consensus.Params :=
  { mainParams.consensus with
    nMinerConfirmationWindow := 2
    nRuleChangeActivationThreshold := 1
    vDeployments := fun _ => ⟨0, 100, 1000000⟩ }

/-- Three periods of `signalChain`: CSV is `STARTED` after the first, `LOCKED_IN` after the
second and `ACTIVE` after the third. Calls at blocks 2 and 4 leave the first two in the
cache, where the call at block 6 finds them. -/
theorem GetStateFor_eq_bip9State_signalChain :
    (VersionBitsConditionChecker .DEPLOYMENT_CSV).cacheAfter signalParams [some (signalChain 2), some (signalChain 4)]
        (some (signalChain 3)) = some THRESHOLD_LOCKED_IN ∧
    (VersionBitsConditionChecker .DEPLOYMENT_CSV).bip9State signalParams (some (signalChain 6)) = THRESHOLD_ACTIVE ∧
    ((VersionBitsConditionChecker .DEPLOYMENT_CSV).GetStateFor (some (signalChain 6)) signalParams
        ((VersionBitsConditionChecker .DEPLOYMENT_CSV).cacheAfter signalParams
          [some (signalChain 2), some (signalChain 4)])).1 =
      (VersionBitsConditionChecker .DEPLOYMENT_CSV).bip9State signalParams (some (signalChain 6)) ∧
    ∀ p ∈ some (signalChain 6), ∀ i q, p.back i = some q →
      ((q.nHeight : Int) + 1) / (VersionBitsConditionChecker .DEPLOYMENT_CSV).Period signalParams =
        ((p.nHeight : Int) + 1) / (VersionBitsConditionChecker .DEPLOYMENT_CSV).Period signalParams →
      ((VersionBitsConditionChecker .DEPLOYMENT_CSV).GetStateFor (some q) signalParams
          ((VersionBitsConditionChecker .DEPLOYMENT_CSV).cacheAfter signalParams
            [some (signalChain 2), some (signalChain 4)])).1 =
        ((VersionBitsConditionChecker .DEPLOYMENT_CSV).GetStateFor (some (signalChain 6)) signalParams
          ((VersionBitsConditionChecker .DEPLOYMENT_CSV).cacheAfter signalParams
            [some (signalChain 2), some (signalChain 4)])).1 :=
  ⟨by decide, by decide,
    AbstractThresholdConditionChecker.GetStateFor_eq_bip9State _ _ (by decide) (by decide) (by decide) _
      (by decide) _ (by decide)⟩

/-- Every deployment's cache after a call at block 2 of `signalChain`. -/
def signalCache : VersionBitsCache :=
  fun d => (VersionBitsConditionChecker d).cacheAfter signalParams [some (signalChain 2)]

/-- On the caches `signalCache` leaves, CSV is `LOCKED_IN` after block 4, and each cache
still agrees with its reference after the call. -/
theorem VersionBitsState_spec_signalCache :
    (VersionBitsState (some (signalChain 4)) signalParams .DEPLOYMENT_CSV signalCache).1 = THRESHOLD_LOCKED_IN ∧
    ((VersionBitsState (some (signalChain 4)) signalParams .DEPLOYMENT_CSV signalCache).1 =
        (VersionBitsConditionChecker .DEPLOYMENT_CSV).bip9State signalParams (some (signalChain 4)) ∧
      ∀ d, Memo.Agrees ((VersionBitsConditionChecker d).bip9State signalParams)
        ((VersionBitsState (some (signalChain 4)) signalParams .DEPLOYMENT_CSV signalCache).2 d)) :=
  ⟨by decide,
    VersionBitsState_spec (by decide) (by decide) (by decide) (by decide) (by decide) fun d => by
      cases d <;>
        exact AbstractThresholdConditionChecker.agrees_cacheAfterFrom (by decide) (by decide) (by decide)
          (by decide) (Memo.agrees_empty _)⟩

/-- The regression chain's segwit deployment is `ALWAYS_ACTIVE`, so that the genesis block
is `ACTIVE` for the code and `DEFINED` by recursion over periods; and a deployment whose
start time is after its timeout leaves `DEFINED` a period that ends before the start and
after the timeout, where the recursion fails it. -/
theorem versionBits_state_not_by_periods :
    (VersionBitsState none regTestParams.consensus .DEPLOYMENT_SEGWIT (fun _ _ => none)).1 = THRESHOLD_ACTIVE ∧
    (VersionBitsConditionChecker .DEPLOYMENT_SEGWIT).bip9State regTestParams.consensus none = THRESHOLD_DEFINED ∧
    MedianTimeMonotone ⟨⟨UInt256.zero, 0, 0, 60, 0⟩, []⟩ ∧
    (VersionBitsState (some ⟨⟨UInt256.zero, 0, 0, 60, 0⟩, []⟩)
        { regTestParams.consensus with nMinerConfirmationWindow := 1, vDeployments := fun _ => ⟨0, 100, 50⟩ }
        .DEPLOYMENT_CSV (fun _ _ => none)).1 = THRESHOLD_DEFINED ∧
    (VersionBitsConditionChecker .DEPLOYMENT_CSV).bip9State
        { regTestParams.consensus with nMinerConfirmationWindow := 1, vDeployments := fun _ => ⟨0, 100, 50⟩ }
        (some ⟨⟨UInt256.zero, 0, 0, 60, 0⟩, []⟩) = THRESHOLD_FAILED :=
  ⟨by decide, rfl, MedianTimeMonotone.genesis _, by decide, by decide⟩

end BitcoinPQ

import BitcoinPQ.Models.Chain.BlockIndex
import BitcoinPQ.Models.Primitives.Transaction
import BitcoinPQ.Models.Script.Script

/-!
# Absolute and relative lock times

`consensus/tx_verify.cpp`: `IsFinalTx` for the absolute lock time of a transaction,
and the BIP 68 relative lock times of its inputs, `CalculateSequenceLocks`,
`EvaluateSequenceLocks` and `SequenceLocks`.

`CalculateSequenceLocks` folds the inputs into one pair, a height and a time, with
the semantics of `nLockTime` (the last invalid one: hence the `- 1`s), and
`EvaluateSequenceLocks` compares the pair with the block. The main result reads the
fold back input by input: a block passes exactly when each input that does not
disable its lock has waited its number of blocks, or of 512 second units, since its
coin.

Heights are `int` in the source and `Int` here: the sums overflow only for heights
no chain reaches. Where the source asserts, or reads the median time past through a
null ancestor pointer, the model returns `none`.
-/

namespace BitcoinPQ

/-- `LOCKTIME_VERIFY_SEQUENCE`, the flag that turns BIP 68 on. -/
def LOCKTIME_VERIFY_SEQUENCE : UInt32 := (1 : UInt32) <<< 0

/-- `CTxIn::SEQUENCE_LOCKTIME_DISABLE_FLAG`. -/
def SEQUENCE_LOCKTIME_DISABLE_FLAG : UInt32 := (1 : UInt32) <<< 31

/-- `CTxIn::SEQUENCE_LOCKTIME_TYPE_FLAG`: set for a lock in time, clear for one in blocks. -/
def SEQUENCE_LOCKTIME_TYPE_FLAG : UInt32 := (1 : UInt32) <<< 22

/-- `CTxIn::SEQUENCE_LOCKTIME_MASK`. -/
def SEQUENCE_LOCKTIME_MASK : UInt32 := 0x0000ffff

/-- `CTxIn::SEQUENCE_LOCKTIME_GRANULARITY`: a time lock counts units of `2 ^ 9` seconds. -/
def SEQUENCE_LOCKTIME_GRANULARITY : UInt32 := 9

/-- One pass of the loop of `CalculateSequenceLocks`: the pair is kept for an input that
disables its lock, and otherwise raised to the last invalid time or height the input
imposes. `none` where the ancestor whose median time past is read does not exist. -/
def sequenceLockStep (block : CBlockIndex) (lock : Int × Int) (txin : CTxIn) (nCoinHeight : Int) :
    Option (Int × Int) :=
  if txin.nSequence &&& SEQUENCE_LOCKTIME_DISABLE_FLAG != 0 then some lock
  else if txin.nSequence &&& SEQUENCE_LOCKTIME_TYPE_FLAG != 0 then
    (block.GetAncestor (max (nCoinHeight - 1) 0)).map fun ancestor =>
      let nCoinTime := ancestor.GetMedianTimePast
      (lock.1, max lock.2 (nCoinTime +
        ((txin.nSequence &&& SEQUENCE_LOCKTIME_MASK) <<< SEQUENCE_LOCKTIME_GRANULARITY).toNat - 1))
  else some (max lock.1 (nCoinHeight + (txin.nSequence &&& SEQUENCE_LOCKTIME_MASK).toNat - 1), lock.2)

/-- The heights the loop leaves in `prevHeights`: `0` for each input that disables its lock. -/
def clearedHeights (vin : List CTxIn) (prevHeights : List Int) : List Int :=
  (vin.zip prevHeights).map fun input =>
    if input.1.nSequence &&& SEQUENCE_LOCKTIME_DISABLE_FLAG != 0 then 0 else input.2

/-- `CalculateSequenceLocks`: the pair of `nLockTime`-like bounds, with the heights it
writes back to `prevHeights`. -/
def CalculateSequenceLocks (tx : CTransaction) (flags : Int32) (prevHeights : List Int)
    (block : CBlockIndex) : Option ((Int × Int) × List Int) :=
  -- assert(prevHeights->size() == tx.vin.size())
  if prevHeights.length ≠ tx.vin.length then none
  else
    let nMinHeight : Int := -1
    let nMinTime : Int := -1
    let fEnforceBIP68 := 2 ≤ tx.nVersion.toUInt32 && flags.toUInt32 &&& LOCKTIME_VERIFY_SEQUENCE != 0
    if !fEnforceBIP68 then some ((nMinHeight, nMinTime), prevHeights)
    else
      ((tx.vin.zip prevHeights).foldlM (fun lock input => sequenceLockStep block lock input.1 input.2)
        (nMinHeight, nMinTime)).map fun lock => (lock, clearedHeights tx.vin prevHeights)

/-- `EvaluateSequenceLocks`; `none` for a block without a parent, which the source asserts against. -/
def EvaluateSequenceLocks (block : CBlockIndex) (lockPair : Int × Int) : Option Bool :=
  block.pprev.map fun pprev =>
    let nBlockTime := pprev.GetMedianTimePast
    if lockPair.1 ≥ block.nHeight ∨ lockPair.2 ≥ nBlockTime then false else true

/-- `SequenceLocks`. -/
def SequenceLocks (tx : CTransaction) (flags : Int32) (prevHeights : List Int) (block : CBlockIndex) :
    Option Bool :=
  (CalculateSequenceLocks tx flags prevHeights block).bind fun r => EvaluateSequenceLocks block r.1

/-- BIP 68 for one input, at a block whose parent is `pprev`: unless it disables its lock,
the input waits `nSequence & 0xffff` blocks after the height of its coin, or that many
units of `2 ^ 9` seconds after the median time past of the block before the coin's. -/
def RelativeLockMet (block pprev : CBlockIndex) (txin : CTxIn) (nCoinHeight : Int) : Prop :=
  txin.nSequence &&& SEQUENCE_LOCKTIME_DISABLE_FLAG = 0 →
    if txin.nSequence &&& SEQUENCE_LOCKTIME_TYPE_FLAG = 0 then
      nCoinHeight + (txin.nSequence &&& SEQUENCE_LOCKTIME_MASK).toNat ≤ block.nHeight
    else ∃ ancestor, block.GetAncestor (max (nCoinHeight - 1) 0) = some ancestor ∧
      ancestor.GetMedianTimePast + (txin.nSequence &&& SEQUENCE_LOCKTIME_MASK).toNat * 2 ^ 9 ≤
        pprev.GetMedianTimePast

/-! ## Absolute lock times -/

theorem toNat_and_mask_lt (x : UInt32) : (x &&& SEQUENCE_LOCKTIME_MASK).toNat < 2 ^ 16 := by
  rw [UInt32.toNat_and]
  exact Nat.lt_of_le_of_lt Nat.and_le_right (by decide)

/-- The time lock in seconds: the shift of the source cannot overflow a 16 bit value. -/
theorem toNat_lock_shift (x : UInt32) :
    ((x &&& SEQUENCE_LOCKTIME_MASK) <<< SEQUENCE_LOCKTIME_GRANULARITY).toNat =
      (x &&& SEQUENCE_LOCKTIME_MASK).toNat * 2 ^ 9 := by
  have hm := toNat_and_mask_lt x
  rw [UInt32.toNat_shiftLeft, Nat.shiftLeft_eq]
  exact Nat.mod_eq_of_lt (by change _ * 2 ^ 9 < 2 ^ 32; omega)

section Fold

variable (block pprev : CBlockIndex)

/-- A pair passes `EvaluateSequenceLocks` at `block`, whose parent is `pprev`. -/
def LockPasses (lock : Int × Int) : Prop :=
  lock.1 < block.nHeight ∧ lock.2 < pprev.GetMedianTimePast

/-- One input raises the pair to a passing one exactly when the pair passed and the
input's own lock is met. -/
theorem sequenceLockStep_passes (lock : Int × Int) (txin : CTxIn) (nCoinHeight : Int) :
    (∃ r, sequenceLockStep block lock txin nCoinHeight = some r ∧ LockPasses block pprev r) ↔
      LockPasses block pprev lock ∧ RelativeLockMet block pprev txin nCoinHeight := by
  unfold sequenceLockStep RelativeLockMet LockPasses
  by_cases hdis : txin.nSequence &&& SEQUENCE_LOCKTIME_DISABLE_FLAG = 0
  · by_cases htype : txin.nSequence &&& SEQUENCE_LOCKTIME_TYPE_FLAG = 0
    · -- a lock in blocks
      simp only [hdis, htype, bne_self_eq_false, Bool.false_eq_true, if_false, if_true,
        Option.some.injEq, exists_eq_left', forall_const]
      omega
    · -- a lock in time, read from the ancestor before the coin
      have hb : (txin.nSequence &&& SEQUENCE_LOCKTIME_TYPE_FLAG != 0) = true := bne_iff_ne.mpr htype
      simp only [hdis, htype, hb, bne_self_eq_false, Bool.false_eq_true, if_false, if_true, forall_const,
        toNat_lock_shift]
      cases hanc : block.GetAncestor (max (nCoinHeight - 1) 0) with
      | none => simp
      | some ancestor =>
        simp only [Option.map_some, Option.some.injEq, exists_eq_left',
          exists_eq_left']
        omega
  · have hb : (txin.nSequence &&& SEQUENCE_LOCKTIME_DISABLE_FLAG != 0) = true := bne_iff_ne.mpr hdis
    simp only [hb, if_true, Option.some.injEq, exists_eq_left', hdis, false_implies, and_true]

/-- The run of the loop: the fold of a list of inputs passes exactly when the pair it
starts from passes and every input's lock is met. -/
theorem foldlM_sequenceLockStep_passes (inputs : List (CTxIn × Int)) (lock : Int × Int) :
    (∃ r, inputs.foldlM (fun lock input => sequenceLockStep block lock input.1 input.2) lock = some r ∧
        LockPasses block pprev r) ↔
      LockPasses block pprev lock ∧ ∀ input ∈ inputs, RelativeLockMet block pprev input.1 input.2 := by
  induction inputs generalizing lock with
  | nil => simp
  | cons input inputs ih =>
    rw [List.foldlM_cons]
    constructor
    · rintro ⟨r, hr, hpass⟩
      obtain ⟨mid, hmid, hrest⟩ := Option.bind_eq_some_iff.mp hr
      obtain ⟨hmidpass, hall⟩ := (ih mid).mp ⟨r, hrest, hpass⟩
      obtain ⟨hlock, hmet⟩ := (sequenceLockStep_passes block pprev lock input.1 input.2).mp
        ⟨mid, hmid, hmidpass⟩
      exact ⟨hlock, List.forall_mem_cons.mpr ⟨hmet, hall⟩⟩
    · rintro ⟨hlock, hall⟩
      obtain ⟨hmet, hall⟩ := List.forall_mem_cons.mp hall
      obtain ⟨mid, hmid, hmidpass⟩ := (sequenceLockStep_passes block pprev lock input.1 input.2).mpr
        ⟨hlock, hmet⟩
      obtain ⟨r, hr, hpass⟩ := (ih mid).mpr ⟨hmidpass, hall⟩
      exact ⟨r, by rw [hmid]; exact hr, hpass⟩

end Fold

/-- The loop reads no missing ancestor when every coin of a time lock is at most one
block above the block checked. -/
theorem foldlM_sequenceLockStep_isSome (block : CBlockIndex) (inputs : List (CTxIn × Int))
    (hanc : ∀ input ∈ inputs, input.1.nSequence &&& SEQUENCE_LOCKTIME_DISABLE_FLAG = 0 →
      input.1.nSequence &&& SEQUENCE_LOCKTIME_TYPE_FLAG ≠ 0 → max (input.2 - 1) 0 ≤ block.nHeight)
    (lock : Int × Int) :
    (inputs.foldlM (fun lock input => sequenceLockStep block lock input.1 input.2) lock).isSome := by
  induction inputs generalizing lock with
  | nil => rfl
  | cons input inputs ih =>
    obtain ⟨hhead, htail⟩ := List.forall_mem_cons.mp hanc
    have hstep : ∃ mid, sequenceLockStep block lock input.1 input.2 = some mid := by
      unfold sequenceLockStep
      by_cases hdis : input.1.nSequence &&& SEQUENCE_LOCKTIME_DISABLE_FLAG = 0
      · by_cases htype : input.1.nSequence &&& SEQUENCE_LOCKTIME_TYPE_FLAG = 0
        · simp [hdis, htype]
        · obtain ⟨ancestor, hancestor⟩ :=
            CBlockIndex.exists_GetAncestor (le_max_right _ _) (hhead hdis htype)
          simp [hdis, htype, hancestor]
      · simp [hdis]
    obtain ⟨mid, hmid⟩ := hstep
    rw [List.foldlM_cons, hmid]
    exact ih htail mid

/-- BIP 68 as `SequenceLocks` checks it: a block with a parent passes a transaction exactly
when the relative locks are not enforced or every input's own lock is met, and the check
is defined whenever the ancestors its time locks read exist. -/
theorem SequenceLocks_iff (tx : CTransaction) (flags : Int32) (prevHeights : List Int)
    (block pprev : CBlockIndex) (hprev : block.pprev = some pprev)
    (hlen : prevHeights.length = tx.vin.length) :
    (SequenceLocks tx flags prevHeights block = some true ↔
      tx.nVersion.toUInt32 < 2 ∨ flags.toUInt32 &&& LOCKTIME_VERIFY_SEQUENCE = 0 ∨
        ∀ input ∈ tx.vin.zip prevHeights, RelativeLockMet block pprev input.1 input.2) ∧
    ((∀ input ∈ tx.vin.zip prevHeights, input.1.nSequence &&& SEQUENCE_LOCKTIME_DISABLE_FLAG = 0 →
        input.1.nSequence &&& SEQUENCE_LOCKTIME_TYPE_FLAG ≠ 0 → max (input.2 - 1) 0 ≤ block.nHeight) →
      (SequenceLocks tx flags prevHeights block).isSome) := by
  -- the pair `(-1, -1)` passes at every block with a parent
  have hstart : LockPasses block pprev (-1, -1) :=
    ⟨by simp only; omega, by have := pprev.GetMedianTimePast_nonneg; simp only; omega⟩
  have heval : ∀ lock, EvaluateSequenceLocks block lock = some true ↔ LockPasses block pprev lock := by
    intro lock
    simp only [EvaluateSequenceLocks, hprev, Option.map_some, Option.some.injEq, LockPasses]
    split_ifs with h <;> simp only [false_iff, true_iff] <;> omega
  have hevalSome : ∀ lock, (EvaluateSequenceLocks block lock).isSome := by
    intro lock
    simp [EvaluateSequenceLocks, hprev]
  unfold SequenceLocks CalculateSequenceLocks
  rw [if_neg (by omega)]
  by_cases hen : 2 ≤ tx.nVersion.toUInt32 ∧ flags.toUInt32 &&& LOCKTIME_VERIFY_SEQUENCE ≠ 0
  · have hb : (decide (2 ≤ tx.nVersion.toUInt32) && flags.toUInt32 &&& LOCKTIME_VERIFY_SEQUENCE != 0) = true := by
      simp [hen.1, hen.2]
    simp only [hb, Bool.not_true, Bool.false_eq_true, if_false]
    refine ⟨?_, fun hanc => ?_⟩
    · have hrun := foldlM_sequenceLockStep_passes block pprev (tx.vin.zip prevHeights) (-1, -1)
      have hv : ¬ tx.nVersion.toUInt32 < 2 := UInt32.not_lt.mpr hen.1
      simp only [Option.bind_map, Option.bind_eq_some_iff, Function.comp_apply, heval]
      rw [hrun]
      simp [hstart, hv, hen.2]
    · obtain ⟨r, hr⟩ := Option.isSome_iff_exists.mp
        (foldlM_sequenceLockStep_isSome block (tx.vin.zip prevHeights) hanc (-1, -1))
      simp [hr, hevalSome]
  · have hb : (decide (2 ≤ tx.nVersion.toUInt32) && flags.toUInt32 &&& LOCKTIME_VERIFY_SEQUENCE != 0) = false := by
      by_contra hne
      simp only [Bool.not_eq_false, Bool.and_eq_true, decide_eq_true_eq, bne_iff_ne] at hne
      exact hen hne
    have hnot : tx.nVersion.toUInt32 < 2 ∨ flags.toUInt32 &&& LOCKTIME_VERIFY_SEQUENCE = 0 := by
      by_cases hv : 2 ≤ tx.nVersion.toUInt32
      · exact Or.inr (by simpa [hv] using hen)
      · exact Or.inl (UInt32.not_le.mp hv)
    simp only [hb, Bool.not_false, if_true, Option.bind_some, heval, hevalSome, implies_true, and_true]
    exact ⟨fun _ => hnot.elim Or.inl (fun h => Or.inr (Or.inl h)), fun _ => hstart⟩

theorem SequenceLocks_iff_height_lock_met :
    SequenceLocks ⟨[⟨⟨UInt256.zero, 0⟩, [], 1, ⟨[]⟩⟩], [], 2, 0⟩ 1 [0]
      ⟨⟨UInt256.zero, 0, 0, 0, 0⟩, [⟨UInt256.zero, 0, 0, 0, 0⟩]⟩ = some true :=
  (SequenceLocks_iff _ 1 [0] _ ⟨⟨UInt256.zero, 0, 0, 0, 0⟩, []⟩ rfl rfl).1.mpr
    (Or.inr (Or.inr (by
      intro input hin
      rw [List.mem_singleton.mp hin, RelativeLockMet, if_pos (by decide)]
      intro _
      decide)))

end BitcoinPQ

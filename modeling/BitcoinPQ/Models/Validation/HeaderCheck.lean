import BitcoinPQ.Models.Chain.BlockIndex
import BitcoinPQ.Models.Chain.Params

/-!
# Header validation

`CheckBlockHeader` and `ContextualCheckBlockHeader` of `validation.cpp`. The context
fixes the major version by height: Bitcoin headers before `BPQHeight`, BPQ headers
from it on. A Bitcoin header's solution is only checked for its size, and its hash is
Bitcoin's, which leaves out the witness merkle root, the solution and the high bits of
the nonce. So the hash of an accepted header determines the whole header only from
the fork on; before it, exactly its legacy part.

The proof-of-work and Equihash checks, the double SHA-256, the difficulty schedule and
the checkpoints are parameters: each is called with exactly the arguments the source
passes it.
-/

namespace BitcoinPQ

open Wire

/-- A failed `CValidationState`: the DoS score, the reject code and the reason. -/
structure ValidationFailure where
  nDoS : Nat
  chRejectCode : UInt8
  strRejectReason : String
  deriving DecidableEq, Repr

def REJECT_INVALID : UInt8 := 0x10
def REJECT_OBSOLETE : UInt8 := 0x11
def REJECT_CHECKPOINT : UInt8 := 0x43

/-- `MAX_FUTURE_BLOCK_TIME`. -/
def MAX_FUTURE_BLOCK_TIME : Int := 2 * 60 * 60

/-- `%08x`: eight lowercase hexadecimal digits. -/
def hex08 (x : UInt32) : String :=
  String.ofList ((List.range 8).reverse.map fun i => Nat.digitChar (x.toNat / 16 ^ i % 16))

/-- What header validation calls outside this model. -/
structure HeaderOracles where
  /-- `CHashWriter::GetHash`: the double SHA-256 of the bytes written. -/
  Hash : List UInt8 → UInt256
  /-- `CheckEquihashSolution(&block, Params())`. -/
  CheckEquihashSolution : CBlockHeader → Bool
  /-- `CheckProofOfWork(hash, nBits, postfork, consensusParams)`. -/
  CheckProofOfWork : UInt256 → UInt32 → Bool → Bool
  /-- `GetNextWorkRequired(pindexPrev, &block, consensusParams)`, which reads only the
  block's time. -/
  GetNextWorkRequired : CBlockIndex → Int → UInt32
  /-- The height of `Checkpoints::GetLastCheckpoint`, when it finds one. -/
  lastCheckpointHeight : Option Int
  fCheckpointsEnabled : Bool

/-- `CheckBlockHeader`. -/
def CheckBlockHeader (E : HeaderOracles) (block : CBlockHeader) (consensusParams : Consensus.Params)
    (fCheckPOW : Bool) : Except ValidationFailure Unit := do
  if block.nMajorVersion ≠ BITCOIN_MAJOR_VERSION ∧ block.nMajorVersion ≠ BPQ_MAJOR_VERSION then
    throw ⟨100, REJECT_INVALID, "invalid-major-version"⟩
  if block.nSolution.length ≠ consensusParams.nSolutionSize then
    throw ⟨100, REJECT_INVALID, "invalid-sol-size"⟩
  let postfork := block.nMajorVersion != BITCOIN_MAJOR_VERSION
  if fCheckPOW = true ∧ postfork = true ∧ E.CheckEquihashSolution block = false then
    throw ⟨100, REJECT_INVALID, "invalid-solution"⟩
  if fCheckPOW = true ∧ E.CheckProofOfWork (block.GetHash E.Hash) block.nBits postfork = false then
    throw ⟨50, REJECT_INVALID, "high-hash"⟩

/-- `ContextualCheckBlockHeader`. Its `fCheckPow` argument is read only by code that is
commented out, and is left out. -/
def ContextualCheckBlockHeader (E : HeaderOracles) (block : CBlockHeader) (params : CChainParams)
    (pindexPrev : CBlockIndex) (nAdjustedTime : Int) : Except ValidationFailure Unit := do
  let nHeight : Int := pindexPrev.nHeight + 1
  let consensusParams := params.GetConsensus
  if nHeight < consensusParams.BPQHeight ∧ block.nMajorVersion ≠ BITCOIN_MAJOR_VERSION then
    throw ⟨100, REJECT_INVALID, "bad-majorversion"⟩
  if nHeight ≥ consensusParams.BPQHeight ∧ block.nMajorVersion ≠ BPQ_MAJOR_VERSION then
    throw ⟨100, REJECT_INVALID, "bad-majorversion"⟩
  let nNextBits := E.GetNextWorkRequired pindexPrev block.nTime.toNat
  if block.nBits ≠ nNextBits then
    throw ⟨100, REJECT_INVALID, "bad-diffbits"⟩
  if E.fCheckpointsEnabled then
    match E.lastCheckpointHeight with
    | some h =>
      if nHeight < h then throw ⟨100, REJECT_CHECKPOINT, "bad-fork-prior-to-checkpoint"⟩
    | none => pure ()
  if (block.nTime.toNat : Int) ≤ pindexPrev.GetMedianTimePast then
    throw ⟨0, REJECT_INVALID, "time-too-old"⟩
  if (block.nTime.toNat : Int) > nAdjustedTime + MAX_FUTURE_BLOCK_TIME then
    throw ⟨0, REJECT_INVALID, "time-too-new"⟩
  if (block.nMinorVersion.toInt < 2 ∧ nHeight ≥ consensusParams.BIP34Height) ∨
      (block.nMinorVersion.toInt < 3 ∧ nHeight ≥ consensusParams.BIP66Height) ∨
      (block.nMinorVersion.toInt < 4 ∧ nHeight ≥ consensusParams.BIP65Height) then
    throw ⟨0, REJECT_OBSOLETE, "bad-version(0x" ++ hex08 block.nMinorVersion.toUInt32 ++ ")"⟩

/-! ## What acceptance fixes -/

section Accept

variable (E : HeaderOracles) (params : CChainParams) (pindexPrev : CBlockIndex) (nAdjustedTime : Int)

/-- An accepted header has the solution size of the chain. -/
theorem CheckBlockHeader_nSolution {block : CBlockHeader} {fCheckPOW : Bool}
    (h : CheckBlockHeader E block params.consensus fCheckPOW = .ok ()) :
    block.nSolution.length = params.consensus.nSolutionSize := by
  unfold CheckBlockHeader at h
  dsimp only at h
  rw [except_guard_eq_ok, except_guard_eq_ok] at h
  exact not_not.mp h.2.1

/-- The context fixes the major version: Bitcoin's below `BPQHeight`, BPQ's from it on. -/
theorem ContextualCheckBlockHeader_nMajorVersion {block : CBlockHeader}
    (h : ContextualCheckBlockHeader E block params pindexPrev nAdjustedTime = .ok ()) :
    block.nMajorVersion =
      if (pindexPrev.nHeight + 1 : Int) < params.consensus.BPQHeight then BITCOIN_MAJOR_VERSION
      else BPQ_MAJOR_VERSION := by
  unfold ContextualCheckBlockHeader CChainParams.GetConsensus at h
  dsimp only at h
  rw [except_guard_eq_ok, except_guard_eq_ok] at h
  obtain ⟨hbelow, hfrom, -⟩ := h
  by_cases hlt : (pindexPrev.nHeight + 1 : Int) < params.consensus.BPQHeight
  · rw [if_pos hlt]
    exact not_not.mp fun hne => hbelow ⟨hlt, hne⟩
  · rw [if_neg hlt]
    exact not_not.mp fun hne => hfrom ⟨not_lt.mp hlt, hne⟩

/-- `ContextualCheckBlockHeader` reads of the header only its versions, time and bits. -/
theorem ContextualCheckBlockHeader_congr {block block' : CBlockHeader}
    (hmaj : block'.nMajorVersion = block.nMajorVersion)
    (hmin : block'.nMinorVersion = block.nMinorVersion) (htime : block'.nTime = block.nTime)
    (hbits : block'.nBits = block.nBits) :
    ContextualCheckBlockHeader E block' params pindexPrev nAdjustedTime =
      ContextualCheckBlockHeader E block params pindexPrev nAdjustedTime := by
  simp only [ContextualCheckBlockHeader, hmaj, hmin, htime, hbits]

/-- Of a Bitcoin header, `CheckBlockHeader` reads its major version, the size of its
solution, its hash input and its bits: the solution itself is never checked. -/
theorem CheckBlockHeader_congr_legacy {block block' : CBlockHeader} {fCheckPOW : Bool}
    (hlegacy : block.nMajorVersion = BITCOIN_MAJOR_VERSION)
    (hmaj : block'.nMajorVersion = block.nMajorVersion)
    (hsol : block'.nSolution.length = block.nSolution.length)
    (hhash : block'.hashInput = block.hashInput) (hbits : block'.nBits = block.nBits) :
    CheckBlockHeader E block' params.consensus fCheckPOW =
      CheckBlockHeader E block params.consensus fCheckPOW := by
  simp only [CheckBlockHeader, CBlockHeader.GetHash, hmaj, hsol, hhash, hbits, hlegacy]
  -- the Equihash test is guarded by `postfork`, which is false for both
  simp only [BITCOIN_MAJOR_VERSION, bne_self_eq_false, Bool.false_eq_true, false_and, and_false,
    if_false]

/-- A header with the legacy part, major version and solution size of an accepted
Bitcoin header is accepted on the same parent too, with the same hash input. -/
theorem legacy_accepted_of_legacyPart {block block' : CBlockHeader}
    (hbelow : (pindexPrev.nHeight + 1 : Int) < params.consensus.BPQHeight)
    (hc : CheckBlockHeader E block params.consensus true = .ok ())
    (hx : ContextualCheckBlockHeader E block params pindexPrev nAdjustedTime = .ok ())
    (hpart : block'.legacyPart = block.legacyPart)
    (hmaj : block'.nMajorVersion = block.nMajorVersion)
    (hsol : block'.nSolution.length = block.nSolution.length) :
    CheckBlockHeader E block' params.consensus true = .ok () ∧
      ContextualCheckBlockHeader E block' params pindexPrev nAdjustedTime = .ok () ∧
      block'.hashInput = block.hashInput := by
  have hlegacy : block.nMajorVersion = BITCOIN_MAJOR_VERSION := by
    rw [ContextualCheckBlockHeader_nMajorVersion E params pindexPrev nAdjustedTime hx, if_pos hbelow]
  have hhash : block'.hashInput = block.hashInput := by
    rw [CBlockHeader.hashInput_of_legacy (hmaj.trans hlegacy), CBlockHeader.hashInput_of_legacy hlegacy]
    exact (CBlockHeader.SerializeLegacy_eq_iff block' block).mpr hpart
  -- the legacy part carries the minor version, the time and the bits
  have hmin : block'.nMinorVersion = block.nMinorVersion := by
    have h := congrArg CBlockHeader.nMinorVersion hpart
    exact h
  have htime : block'.nTime = block.nTime := by
    have h := congrArg CBlockHeader.nTime hpart
    exact h
  have hbits : block'.nBits = block.nBits := by
    have h := congrArg CBlockHeader.nBits hpart
    exact h
  refine ⟨?_, ?_, hhash⟩
  · rw [CheckBlockHeader_congr_legacy E params hlegacy hmaj hsol hhash hbits, hc]
  · rw [ContextualCheckBlockHeader_congr E params pindexPrev nAdjustedTime hmaj hmin htime hbits, hx]

/-- For two headers accepted on the same parent, equal hash inputs mean equal headers
from the fork on, and equal legacy parts before it. -/
theorem CBlockHeader_hashInput_eq_iff_of_accepted
    (hsize : params.consensus.nSolutionSize ≤ MAX_SIZE) {h₁ h₂ : CBlockHeader}
    (hc₁ : CheckBlockHeader E h₁ params.consensus true = .ok ())
    (hx₁ : ContextualCheckBlockHeader E h₁ params pindexPrev nAdjustedTime = .ok ())
    (hc₂ : CheckBlockHeader E h₂ params.consensus true = .ok ())
    (hx₂ : ContextualCheckBlockHeader E h₂ params pindexPrev nAdjustedTime = .ok ()) :
    h₁.hashInput = h₂.hashInput ↔
      if (pindexPrev.nHeight + 1 : Int) < params.consensus.BPQHeight then
        h₁.legacyPart = h₂.legacyPart
      else h₁ = h₂ := by
  have hm₁ := ContextualCheckBlockHeader_nMajorVersion E params pindexPrev nAdjustedTime hx₁
  have hm₂ := ContextualCheckBlockHeader_nMajorVersion E params pindexPrev nAdjustedTime hx₂
  by_cases hlt : (pindexPrev.nHeight + 1 : Int) < params.consensus.BPQHeight
  · rw [if_pos hlt] at hm₁ hm₂ ⊢
    rw [CBlockHeader.hashInput_of_legacy hm₁, CBlockHeader.hashInput_of_legacy hm₂]
    exact CBlockHeader.SerializeLegacy_eq_iff h₁ h₂
  · rw [if_neg hlt] at hm₁ hm₂ ⊢
    rw [CBlockHeader.hashInput_of_BPQ hm₁, CBlockHeader.hashInput_of_BPQ hm₂]
    -- a BPQ header is hashed in its own format, which reads back
    have hs₁ : h₁.nSolution.length ≤ MAX_SIZE := (CheckBlockHeader_nSolution E params hc₁).trans_le hsize
    have hs₂ : h₂.nSolution.length ≤ MAX_SIZE := (CheckBlockHeader_nSolution E params hc₂).trans_le hsize
    constructor
    · exact CBlockHeader.Unserialize_reads.injective hs₁ hs₂
    · intro heq
      rw [heq]

end Accept

/-! ## Two Bitcoin headers with one hash -/

/-- Oracles that pass every proof of work and solution, with the difficulty schedule
asking for bits zero. -/
def acceptingOracles : HeaderOracles where
  Hash := fun _ => UInt256.zero
  CheckEquihashSolution := fun _ => true
  CheckProofOfWork := fun _ _ _ => true
  GetNextWorkRequired := fun _ _ => 0
  lastCheckpointHeight := none
  fCheckpointsEnabled := false

/-- A genesis entry with time 0. -/
def genesisIndex : CBlockIndex := ⟨⟨UInt256.zero, BITCOIN_MAJOR_VERSION, 0, 0, 0⟩, []⟩

/-- A Bitcoin header on `genesisIndex` whose 25 solution bytes, the main chain's size,
are all `sol`. -/
def legacyHeader (sol : UInt8) : CBlockHeader :=
  ⟨BITCOIN_MAJOR_VERSION, 0, UInt256.zero, UInt256.zero, UInt256.zero, 1, 0, UInt256.zero,
    List.replicate 25 sol⟩

theorem legacyHeader_accepted (sol : UInt8) :
    CheckBlockHeader acceptingOracles (legacyHeader sol) mainParams.consensus true = .ok () ∧
      ContextualCheckBlockHeader acceptingOracles (legacyHeader sol) mainParams genesisIndex 1 =
        .ok () :=
  ⟨rfl, rfl⟩

/-- The hash inputs of the two headers agree, read off their acceptance. -/
theorem legacyHeader_hashInput_eq : (legacyHeader 0).hashInput = (legacyHeader 1).hashInput := by
  obtain ⟨hc₀, hx₀⟩ := legacyHeader_accepted 0
  obtain ⟨hc₁, hx₁⟩ := legacyHeader_accepted 1
  rw [CBlockHeader_hashInput_eq_iff_of_accepted acceptingOracles mainParams genesisIndex 1
    (by decide) hc₀ hx₀ hc₁ hx₁, if_pos (by decide)]
  rfl

/-- Two Bitcoin headers accepted on one parent that differ in their solutions, and so in
their serializations, give `GetHash` the same bytes. -/
theorem legacy_headers_share_hashInput :
    CheckBlockHeader acceptingOracles (legacyHeader 0) mainParams.consensus true = .ok () ∧
      ContextualCheckBlockHeader acceptingOracles (legacyHeader 0) mainParams genesisIndex 1 = .ok () ∧
      CheckBlockHeader acceptingOracles (legacyHeader 1) mainParams.consensus true = .ok () ∧
      ContextualCheckBlockHeader acceptingOracles (legacyHeader 1) mainParams genesisIndex 1 = .ok () ∧
      CBlockHeader.Serialize CDataStream (legacyHeader 0) ≠ CBlockHeader.Serialize CDataStream (legacyHeader 1) ∧
      (legacyHeader 0).hashInput = (legacyHeader 1).hashInput := by
  obtain ⟨hc, hx⟩ := legacyHeader_accepted 0
  -- the second header has the first one's legacy part, major version and solution size
  have hpart : (legacyHeader 1).legacyPart = (legacyHeader 0).legacyPart := rfl
  obtain ⟨hc', hx', hhash⟩ := legacy_accepted_of_legacyPart acceptingOracles mainParams genesisIndex 1
    (by decide) hc hx hpart rfl rfl
  refine ⟨hc, hx, hc', hx', ?_, hhash.symm⟩
  -- equal serializations would read back as equal headers, with equal solutions
  intro heq
  have h01 := CBlockHeader.Unserialize_reads.injective (by decide) (by decide) heq
  have hsol := congrArg (fun h => h.nSolution.head?) h01
  simp [legacyHeader] at hsol

end BitcoinPQ

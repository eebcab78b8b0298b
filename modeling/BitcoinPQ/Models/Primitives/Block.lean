import BitcoinPQ.Models.Primitives.RoundTrip

/-!
# Block headers and blocks

`primitives/block.h`: this fork's header carries a major and a minor version, a
reserved witness merkle root, a 256-bit nonce and the Equihash solution; a block is
its header followed by the vector of its transactions. `GetHash` hashes a BPQ header
in this format, but a Bitcoin header (major version 0) in Bitcoin's 80-byte format,
which holds neither the witness merkle root, nor the solution, nor the nonce beyond
its low 32 bits.
-/

namespace BitcoinPQ

open Wire

/-- `CBlockHeader`. -/
structure CBlockHeader where
  nMajorVersion : UInt8
  nMinorVersion : Int32
  hashPrevBlock : UInt256
  hashMerkleRoot : UInt256
  hashWitnessMerkleRoot : UInt256
  nTime : UInt32
  nBits : UInt32
  nNonce : UInt256
  nSolution : List UInt8
  deriving DecidableEq

/-- `CBlock`: the header and the transactions. -/
structure CBlock extends CBlockHeader where
  vtx : List CTransaction
  deriving DecidableEq

/-- `CBlockHeader::SerializationOp` on an output stream. -/
def CBlockHeader.Serialize {σ : Type} (S : OStream σ) (h : CBlockHeader) : σ :=
  S.concat [S.write (ser_writedata8 h.nMajorVersion), S.write (serializeInt32 h.nMinorVersion),
    S.write h.hashPrevBlock.data, S.write h.hashMerkleRoot.data,
    S.write h.hashWitnessMerkleRoot.data, S.write (ser_writedata32 h.nTime),
    S.write (ser_writedata32 h.nBits), S.write h.nNonce.data, serializeBytes S h.nSolution]

/-- `CBlock::SerializationOp`: each transaction is written under the stream's version. -/
def CBlock.Serialize {σ : Type} (S : OStream σ) (fAllowWitness : Bool) (b : CBlock) : σ :=
  S.append (CBlockHeader.Serialize S b.toCBlockHeader)
    (serializeVector S (SerializeTransaction S fAllowWitness) b.vtx)

/-- `CBlockHeader::BITCOIN_MAJOR_VERSION`. -/
def BITCOIN_MAJOR_VERSION : UInt8 := 0

/-- `CBlockHeader::BPQ_MAJOR_VERSION`. -/
def BPQ_MAJOR_VERSION : UInt8 := 1

/-- `uint256::GetUint64`: the `pos`-th little-endian 64-bit word. -/
def UInt256.GetUint64 (u : UInt256) (pos : Nat) : UInt64 :=
  UInt64.ofNat (leValue ((u.data.drop (8 * pos)).take 8))

/-- `ArithToUint256(arith_uint256(x))` for a 32-bit `x`. -/
def UInt256.ofUInt32 (x : UInt32) : UInt256 :=
  ⟨leBytes 4 x.toNat ++ List.replicate 28 0, by simp⟩

/-- `CBlockHeader::SerializeLegacy`: Bitcoin's header, with the nonce cut to the low
32 bits of its first word. -/
def CBlockHeader.SerializeLegacy {σ : Type} (S : OStream σ) (h : CBlockHeader) : σ :=
  S.concat [S.write (serializeInt32 h.nMinorVersion), S.write h.hashPrevBlock.data,
    S.write h.hashMerkleRoot.data, S.write (ser_writedata32 h.nTime),
    S.write (ser_writedata32 h.nBits), S.write (ser_writedata32 (h.nNonce.GetUint64 0).toUInt32)]

/-- The bytes `CBlockHeader::GetHash` writes into its `CHashWriter`. -/
def CBlockHeader.hashInput (h : CBlockHeader) : List UInt8 :=
  if h.nMajorVersion ≥ BPQ_MAJOR_VERSION then CBlockHeader.Serialize CDataStream h
  else CBlockHeader.SerializeLegacy CDataStream h

/-- `CBlockHeader::GetHash`, for the double SHA-256 `Hash` of `CHashWriter::GetHash`. -/
def CBlockHeader.GetHash (Hash : List UInt8 → UInt256) (h : CBlockHeader) : UInt256 :=
  Hash h.hashInput

/-- `CBlockHeader::SerializationOp` when reading. -/
def CBlockHeader.Unserialize : Reader CBlockHeader := do
  let nMajorVersion ← ser_readdata8
  let nMinorVersion ← unserializeInt32
  let hashPrevBlock ← unserializeUInt256
  let hashMerkleRoot ← unserializeUInt256
  let hashWitnessMerkleRoot ← unserializeUInt256
  let nTime ← ser_readdata32
  let nBits ← ser_readdata32
  let nNonce ← unserializeUInt256
  let nSolution ← unserializeBytes
  pure ⟨nMajorVersion, nMinorVersion, hashPrevBlock, hashMerkleRoot, hashWitnessMerkleRoot,
    nTime, nBits, nNonce, nSolution⟩

/-- `CBlockHeader::UnserializeLegacy`. -/
def CBlockHeader.UnserializeLegacy : Reader CBlockHeader := do
  let nMinorVersion ← unserializeInt32
  let hashPrevBlock ← unserializeUInt256
  let hashMerkleRoot ← unserializeUInt256
  let nTime ← ser_readdata32
  let nBits ← ser_readdata32
  let legacy_nonce ← ser_readdata32
  pure ⟨BITCOIN_MAJOR_VERSION, nMinorVersion, hashPrevBlock, hashMerkleRoot, UInt256.zero,
    nTime, nBits, UInt256.ofUInt32 legacy_nonce, []⟩

/-- What Bitcoin's header format keeps of a header: the header `UnserializeLegacy`
gives back. -/
def CBlockHeader.legacyPart (h : CBlockHeader) : CBlockHeader :=
  ⟨BITCOIN_MAJOR_VERSION, h.nMinorVersion, h.hashPrevBlock, h.hashMerkleRoot, UInt256.zero,
    h.nTime, h.nBits, UInt256.ofUInt32 (h.nNonce.GetUint64 0).toUInt32, []⟩

section Hom

variable {σ τ : Type} {S : OStream σ} {T : OStream τ} (h : S.Hom T)

theorem OStream.Hom.map_CBlockHeader_Serialize (hdr : CBlockHeader) :
    h.toFun (CBlockHeader.Serialize S hdr) = CBlockHeader.Serialize T hdr := by
  simp only [CBlockHeader.Serialize, h.map_concat, List.map_cons, List.map_nil, h.map_write,
    h.map_serializeBytes]

theorem OStream.Hom.map_CBlock_Serialize (fAllowWitness : Bool) (b : CBlock) :
    h.toFun (CBlock.Serialize S fAllowWitness b) = CBlock.Serialize T fAllowWitness b := by
  rw [CBlock.Serialize, CBlock.Serialize, h.map_append, h.map_CBlockHeader_Serialize,
    h.map_serializeVector b.vtx fun tx _ => h.map_SerializeTransaction fAllowWitness tx]

end Hom

/-! ## Reading headers back -/

theorem UInt256.GetUint64_ofUInt32 (x : UInt32) : (UInt256.ofUInt32 x).GetUint64 0 = x.toUInt64 := by
  have htake : ((UInt256.ofUInt32 x).data.drop 0).take 8 = leBytes 4 x.toNat ++ List.replicate 4 0 := by
    simp [UInt256.ofUInt32, List.take_append,
      List.take_of_length_le (by simp : (leBytes 4 x.toNat).length ≤ 8)]
  rw [UInt256.GetUint64, htake, leValue_append_replicate_zero, leValue_leBytes_of_lt x.toNat_lt]
  apply UInt64.toNat_inj.mp
  simp

theorem CBlockHeader.hashInput_of_legacy {h : CBlockHeader}
    (hmaj : h.nMajorVersion = BITCOIN_MAJOR_VERSION) :
    h.hashInput = CBlockHeader.SerializeLegacy CDataStream h := by
  rw [CBlockHeader.hashInput, if_neg (by rw [hmaj]; decide)]

theorem CBlockHeader.hashInput_of_BPQ {h : CBlockHeader} (hmaj : h.nMajorVersion = BPQ_MAJOR_VERSION) :
    h.hashInput = CBlockHeader.Serialize CDataStream h := by
  rw [CBlockHeader.hashInput, if_pos (by rw [hmaj]; decide)]

/-- The legacy format depends on nothing but the legacy part. -/
theorem CBlockHeader.SerializeLegacy_legacyPart {σ : Type} (S : OStream σ) (h : CBlockHeader) :
    CBlockHeader.SerializeLegacy S h.legacyPart = CBlockHeader.SerializeLegacy S h := by
  simp only [CBlockHeader.SerializeLegacy, CBlockHeader.legacyPart, UInt256.GetUint64_ofUInt32,
    UInt32.toUInt32_toUInt64]

theorem CBlockHeader.Unserialize_reads :
    Reads CBlockHeader.Unserialize (CBlockHeader.Serialize CDataStream)
      (fun h => h.nSolution.length ≤ MAX_SIZE) := by
  intro h rest hsol
  simp only [CBlockHeader.Serialize, CDataStream_concat, CDataStream_write, List.flatten_cons,
    List.flatten_nil, List.append_nil, List.append_assoc]
  rw [CBlockHeader.Unserialize, ser_readdata8_reads.run_bind trivial,
    unserializeInt32_reads.run_bind trivial, unserializeUInt256_reads.run_bind trivial,
    unserializeUInt256_reads.run_bind trivial, unserializeUInt256_reads.run_bind trivial,
    ser_readdata32_reads.run_bind trivial, ser_readdata32_reads.run_bind trivial,
    unserializeUInt256_reads.run_bind trivial, unserializeBytes_reads.run_bind hsol]
  rfl

/-- `UnserializeLegacy` reads the legacy part of a header back from its legacy bytes. -/
theorem CBlockHeader.UnserializeLegacy_run (h : CBlockHeader) (rest : List UInt8) :
    CBlockHeader.UnserializeLegacy.run (CBlockHeader.SerializeLegacy CDataStream h ++ rest) =
      .ok (h.legacyPart, rest) := by
  simp only [CBlockHeader.SerializeLegacy, CDataStream_concat, CDataStream_write, List.flatten_cons,
    List.flatten_nil, List.append_nil, List.append_assoc]
  rw [CBlockHeader.UnserializeLegacy, unserializeInt32_reads.run_bind trivial,
    unserializeUInt256_reads.run_bind trivial, unserializeUInt256_reads.run_bind trivial,
    ser_readdata32_reads.run_bind trivial, ser_readdata32_reads.run_bind trivial,
    ser_readdata32_reads.run_bind trivial]
  rfl

/-- Two headers have the same legacy bytes exactly when their legacy parts agree. -/
theorem CBlockHeader.SerializeLegacy_eq_iff (h₁ h₂ : CBlockHeader) :
    CBlockHeader.SerializeLegacy CDataStream h₁ = CBlockHeader.SerializeLegacy CDataStream h₂ ↔
      h₁.legacyPart = h₂.legacyPart := by
  constructor
  · intro heq
    have h1 := CBlockHeader.UnserializeLegacy_run h₁ []
    rw [heq, CBlockHeader.UnserializeLegacy_run h₂ []] at h1
    exact (Prod.mk.inj (Except.ok.inj h1)).1.symm
  · intro heq
    rw [← CBlockHeader.SerializeLegacy_legacyPart CDataStream h₁, heq,
      CBlockHeader.SerializeLegacy_legacyPart]

end BitcoinPQ

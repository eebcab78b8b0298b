import BitcoinPQ.Models.Primitives.Block
import BitcoinPQ.Models.Keys.PubKey

/-!
# The size-computing fast path

`GetSerializeSize` runs a value's serializer on a `CSizeComputer`. A serializer that
uses the templates only counts there exactly the bytes it writes to a real stream,
since counting is a map of streams (`lengthHom`); transaction and block weights are
computed this way. `CExtPubKey` instead overrides the template for `CSizeComputer`
with the size of the BIP32 encoding, which its XMSS branch does not write.
-/

namespace BitcoinPQ

/-- `PROTOCOL_VERSION`. -/
def PROTOCOL_VERSION : Int32 := 70016

/-- `WITNESS_SCALE_FACTOR` of this fork. -/
def WITNESS_SCALE_FACTOR : Nat := 32

/-- `::GetSerializeSize(tx, nType, nVersion)`. -/
def CTransaction.GetSerializeSize (tx : CTransaction) (nVersion : Int32) : Nat :=
  SerializeTransaction CSizeComputer (allowWitness nVersion) tx

/-- `::GetSerializeSize(block, nType, nVersion)`. -/
def CBlock.GetSerializeSize (b : CBlock) (nVersion : Int32) : Nat :=
  CBlock.Serialize CSizeComputer (allowWitness nVersion) b

/-- `GetTransactionWeight`: the stripped size times `WITNESS_SCALE_FACTOR - 1` plus
the total size. -/
def GetTransactionWeight (tx : CTransaction) : Nat :=
  tx.GetSerializeSize (PROTOCOL_VERSION ||| SERIALIZE_TRANSACTION_NO_WITNESS) *
      (WITNESS_SCALE_FACTOR - 1) + tx.GetSerializeSize PROTOCOL_VERSION

/-- `GetBlockWeight`. -/
def GetBlockWeight (b : CBlock) : Nat :=
  b.GetSerializeSize (PROTOCOL_VERSION ||| SERIALIZE_TRANSACTION_NO_WITNESS) *
      (WITNESS_SCALE_FACTOR - 1) + b.GetSerializeSize PROTOCOL_VERSION

/-! ## Template serializers -/

theorem SerializeTransaction_CSizeComputer (fAllowWitness : Bool) (tx : CTransaction) :
    SerializeTransaction CSizeComputer fAllowWitness tx =
      (SerializeTransaction CDataStream fAllowWitness tx).length :=
  (lengthHom.map_SerializeTransaction fAllowWitness tx).symm

theorem CBlock_Serialize_CSizeComputer (fAllowWitness : Bool) (b : CBlock) :
    CBlock.Serialize CSizeComputer fAllowWitness b =
      (CBlock.Serialize CDataStream fAllowWitness b).length :=
  (lengthHom.map_CBlock_Serialize fAllowWitness b).symm

theorem allowWitness_PROTOCOL_VERSION : allowWitness PROTOCOL_VERSION = true := by decide

theorem allowWitness_PROTOCOL_VERSION_NO_WITNESS :
    allowWitness (PROTOCOL_VERSION ||| SERIALIZE_TRANSACTION_NO_WITNESS) = false := by decide

/-- Transaction and block weights from the bytes: 31 times the size without witnesses
plus the size with them. -/
theorem GetTransactionWeight_GetBlockWeight_eq :
    (∀ tx : CTransaction, GetTransactionWeight tx =
      (SerializeTransaction CDataStream false tx).length * 31 +
        (SerializeTransaction CDataStream true tx).length) ∧
    (∀ b : CBlock, GetBlockWeight b =
      (CBlock.Serialize CDataStream false b).length * 31 +
        (CBlock.Serialize CDataStream true b).length) := by
  constructor
  · intro tx
    rw [GetTransactionWeight, CTransaction.GetSerializeSize, CTransaction.GetSerializeSize,
      allowWitness_PROTOCOL_VERSION, allowWitness_PROTOCOL_VERSION_NO_WITNESS,
      SerializeTransaction_CSizeComputer, SerializeTransaction_CSizeComputer]
    rfl
  · intro b
    rw [GetBlockWeight, CBlock.GetSerializeSize, CBlock.GetSerializeSize,
      allowWitness_PROTOCOL_VERSION, allowWitness_PROTOCOL_VERSION_NO_WITNESS,
      CBlock_Serialize_CSizeComputer, CBlock_Serialize_CSizeComputer]
    rfl

/-! ## Extended public keys -/

/-- An XMSS extended key: the template writes the key's bytes behind their length. -/
theorem CExtPubKey.Serialize_of_IsXMSS {k : CExtPubKey} (hxmss : k.pubkey.IsXMSS = true) :
    (k.Serialize CDataStream).map List.length =
      some (GetSizeOfCompactSize k.pubkey.size + k.pubkey.size) := by
  simp [CExtPubKey.Serialize, hxmss, length_WriteCompactSize, CPubKey.size]

/-- A 69-byte XMSS key: `GetSerializeSize` says 75 bytes, the stream gets 70. -/
theorem CExtPubKey_SerializeSize_xmss :
    let k : CExtPubKey :=
      ⟨0, ⟨#[0, 0, 0, 0], rfl⟩, 0, UInt256.zero, ⟨HDR_XMSS_V1 :: List.replicate 68 0⟩⟩
    k.SerializeSize = 75 ∧ (k.Serialize CDataStream).map List.length = some 70 :=
  ⟨rfl, CExtPubKey.Serialize_of_IsXMSS rfl⟩

end BitcoinPQ

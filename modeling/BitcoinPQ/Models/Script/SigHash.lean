import BitcoinPQ.Models.Script.Script

/-!
# Signature hashes and signature messages

`SignatureHash` in `script/interpreter.cpp` hashes the signature preimage of an
input: the BIP143 layout for witness versions 0 and 1, the legacy
`CTransactionSignatureSerializer` layout otherwise. This fork signs and verifies the
preimage itself: `Signature` builds the same stream by a second copy of the code and
returns it unhashed, and `CKey::Sign` and `CPubKey::Verify` derive the ECDSA digest
from it. Hashing (`CHashWriter::GetHash`, `Hash`) is the double SHA-256 of the
vendored `crypto/sha256.cpp`, a parameter of the model.
-/

namespace BitcoinPQ

open Wire

/-! ## Constants -/

def SIGHASH_ALL : Int32 := 1
def SIGHASH_NONE : Int32 := 2
def SIGHASH_SINGLE : Int32 := 3
def SIGHASH_ANYONECANPAY : Int32 := 0x80

/-- `SigVersion`. -/
inductive SigVersion
  | SIGVERSION_BASE
  | SIGVERSION_WITNESS_V0
  | SIGVERSION_WITNESS_V1
  deriving DecidableEq, Repr

/-- `uint256S("00…01")`: the number one, whose least significant byte is stored first. -/
def UInt256.one : UInt256 := ⟨1 :: List.replicate 31 0, rfl⟩

/-! ## The legacy serializer -/

/-- The first loop of `SerializeScriptCode`: the `OP_CODESEPARATOR`s read before
`GetOp` first fails. -/
def countCodeSeparators (it : List UInt8) : Nat :=
  if h : it = [] then 0 else
    match hop : GetOp2 it with
    | (true, opcode, _, it') =>
      have : it'.length < it.length := by
        have := GetOp2_length_lt h
        rw [hop] at this
        exact this
      (if opcode = OP_CODESEPARATOR then 1 else 0) + countCodeSeparators it'
    | (false, _, _, _) => 0
termination_by it.length

/-- The second loop of `SerializeScriptCode`: write the pending segment from `itBegin`
at every `OP_CODESEPARATOR`, leaving the separator out, and after the loop write the
rest up to where the failed `GetOp` stopped. -/
def writeScriptCodeSegments (itBegin it : List UInt8) : List UInt8 :=
  if h : it = [] then
    if itBegin ≠ [] then itBegin.take (itBegin.length - it.length) else []
  else
    match hop : GetOp2 it with
    | (true, opcode, _, it') =>
      have : it'.length < it.length := by
        have := GetOp2_length_lt h
        rw [hop] at this
        exact this
      if opcode = OP_CODESEPARATOR then
        itBegin.take (itBegin.length - it'.length - 1) ++ writeScriptCodeSegments it' it'
      else writeScriptCodeSegments itBegin it'
    | (false, _, _, it') =>
      if itBegin ≠ [] then itBegin.take (itBegin.length - it'.length) else []
termination_by it.length

/-- `CTransactionSignatureSerializer::SerializeScriptCode`. -/
def SerializeScriptCode (scriptCode : CScript) : List UInt8 :=
  WriteCompactSize (scriptCode.length - countCodeSeparators scriptCode) ++
    writeScriptCodeSegments scriptCode scriptCode

/-- `CTransactionSignatureSerializer`, with its flags computed from `nHashType`. -/
structure CTransactionSignatureSerializer where
  txTo : CTransaction
  scriptCode : CScript
  nIn : Nat
  fAnyoneCanPay : Bool
  fHashSingle : Bool
  fHashNone : Bool

def CTransactionSignatureSerializer.mk' (txTo : CTransaction) (scriptCode : CScript) (nIn : Nat)
    (nHashType : Int32) : CTransactionSignatureSerializer where
  txTo := txTo
  scriptCode := scriptCode
  nIn := nIn
  fAnyoneCanPay := (nHashType &&& SIGHASH_ANYONECANPAY) != 0
  fHashSingle := (nHashType &&& 0x1f) == SIGHASH_SINGLE
  fHashNone := (nHashType &&& 0x1f) == SIGHASH_NONE

/-- An element of a vector the serializer only indexes in range. -/
def nth {α : Type} [Inhabited α] (xs : List α) (i : Nat) : α := xs[i]?.getD default

instance : Inhabited CTxIn := ⟨⟨⟨UInt256.zero, 0xffffffff⟩, [], SEQUENCE_FINAL, ⟨[]⟩⟩⟩
instance : Inhabited CTxOut := ⟨CTxOut.null⟩

namespace CTransactionSignatureSerializer

variable (ser : CTransactionSignatureSerializer)

/-- `SerializeInput`: other inputs get an empty script, and under SINGLE or NONE a
zero sequence. -/
def SerializeInput (nInput : Nat) : List UInt8 :=
  let nInput := if ser.fAnyoneCanPay then ser.nIn else nInput
  let txin := nth ser.txTo.vin nInput
  txin.prevout.serialize ++
    (if nInput != ser.nIn then serializeScript CDataStream [] else SerializeScriptCode ser.scriptCode) ++
    (if nInput != ser.nIn && (ser.fHashSingle || ser.fHashNone) then serializeInt32 0
      else ser_writedata32 txin.nSequence)

/-- `SerializeOutput`: under SINGLE the outputs before `nIn` are null outputs. -/
def SerializeOutput (nOutput : Nat) : List UInt8 :=
  if ser.fHashSingle && nOutput != ser.nIn then CTxOut.serialize CDataStream CTxOut.null
  else CTxOut.serialize CDataStream (nth ser.txTo.vout nOutput)

/-- `CTransactionSignatureSerializer::Serialize`. -/
def Serialize : List UInt8 :=
  let nInputs := if ser.fAnyoneCanPay then 1 else ser.txTo.vin.length
  let nOutputs :=
    if ser.fHashNone then 0 else if ser.fHashSingle then ser.nIn + 1 else ser.txTo.vout.length
  serializeInt32 ser.txTo.nVersion ++
    WriteCompactSize nInputs ++ (List.range nInputs).flatMap ser.SerializeInput ++
    WriteCompactSize nOutputs ++ (List.range nOutputs).flatMap ser.SerializeOutput ++
    ser_writedata32 ser.txTo.nLockTime

theorem length_Serialize_ge : 4 ≤ ser.Serialize.length := by
  simp [Serialize, serializeInt32, ser_writedata32]

end CTransactionSignatureSerializer

/-! ## BIP143 midstate hashes -/

section Hashes

variable (hash256 : List UInt8 → UInt256)

def GetPrevoutHash (txTo : CTransaction) : UInt256 :=
  hash256 (txTo.vin.flatMap fun txin => txin.prevout.serialize)

def GetSequenceHash (txTo : CTransaction) : UInt256 :=
  hash256 (txTo.vin.flatMap fun txin => ser_writedata32 txin.nSequence)

def GetOutputsHash (txTo : CTransaction) : UInt256 :=
  hash256 (txTo.vout.flatMap (CTxOut.serialize CDataStream))

/-- `PrecomputedTransactionData`. -/
structure PrecomputedTransactionData where
  hashPrevouts : UInt256
  hashSequence : UInt256
  hashOutputs : UInt256
  ready : Bool

/-- The `PrecomputedTransactionData` constructor: filled only for transactions with
a witness. -/
def PrecomputedTransactionData.ofTx (txTo : CTransaction) : PrecomputedTransactionData :=
  if txTo.HasWitness then
    ⟨GetPrevoutHash hash256 txTo, GetSequenceHash hash256 txTo, GetOutputsHash hash256 txTo, true⟩
  else ⟨UInt256.zero, UInt256.zero, UInt256.zero, false⟩

/-- `SignatureHash`. -/
def SignatureHash (scriptCode : CScript) (txTo : CTransaction) (nIn : Fin txTo.vin.length)
    (nHashType : Int32) (amount : Int64) (sigversion : SigVersion)
    (cache : Option PrecomputedTransactionData) : UInt256 :=
  if sigversion = .SIGVERSION_WITNESS_V0 ∨ sigversion = .SIGVERSION_WITNESS_V1 then
    let cacheready := match cache with | some c => c.ready | none => false
    let cached (f : PrecomputedTransactionData → UInt256) (compute : UInt256) :=
      match cache with | some c => if cacheready then f c else compute | none => compute
    let hashPrevouts :=
      if (nHashType &&& SIGHASH_ANYONECANPAY) == 0 then
        cached (·.hashPrevouts) (GetPrevoutHash hash256 txTo) else UInt256.zero
    let hashSequence :=
      if (nHashType &&& SIGHASH_ANYONECANPAY) == 0 && (nHashType &&& 0x1f) != SIGHASH_SINGLE &&
          (nHashType &&& 0x1f) != SIGHASH_NONE then
        cached (·.hashSequence) (GetSequenceHash hash256 txTo) else UInt256.zero
    let hashOutputs :=
      if (nHashType &&& 0x1f) != SIGHASH_SINGLE && (nHashType &&& 0x1f) != SIGHASH_NONE then
        cached (·.hashOutputs) (GetOutputsHash hash256 txTo)
      else if (nHashType &&& 0x1f) == SIGHASH_SINGLE && nIn.val < txTo.vout.length then
        hash256 (CTxOut.serialize CDataStream (nth txTo.vout nIn.val))
      else UInt256.zero
    let txin := txTo.vin[nIn]
    hash256 (serializeInt32 txTo.nVersion ++ hashPrevouts.data ++ hashSequence.data ++
      txin.prevout.serialize ++ serializeScript CDataStream scriptCode ++ serializeInt64 amount ++
      ser_writedata32 txin.nSequence ++ hashOutputs.data ++ ser_writedata32 txTo.nLockTime ++
      serializeInt32 nHashType)
  else if (nHashType &&& 0x1f) == SIGHASH_SINGLE && nIn.val ≥ txTo.vout.length then
    UInt256.one
  else
    let txTmp := CTransactionSignatureSerializer.mk' txTo scriptCode nIn.val nHashType
    hash256 (txTmp.Serialize ++ serializeInt32 nHashType)

/-- `Signature`: the preimage stream of `SignatureHash`, built by its own copy of the
code; out-of-range SINGLE yields the single byte `1`. -/
def Signature (scriptCode : CScript) (txTo : CTransaction) (nIn : Fin txTo.vin.length)
    (nHashType : Int32) (amount : Int64) (sigversion : SigVersion)
    (cache : Option PrecomputedTransactionData) : List UInt8 :=
  if sigversion = .SIGVERSION_WITNESS_V0 ∨ sigversion = .SIGVERSION_WITNESS_V1 then
    let cacheready := match cache with | some c => c.ready | none => false
    let cached (f : PrecomputedTransactionData → UInt256) (compute : UInt256) :=
      match cache with | some c => if cacheready then f c else compute | none => compute
    let hashPrevouts :=
      if (nHashType &&& SIGHASH_ANYONECANPAY) == 0 then
        cached (·.hashPrevouts) (GetPrevoutHash hash256 txTo) else UInt256.zero
    let hashSequence :=
      if (nHashType &&& SIGHASH_ANYONECANPAY) == 0 && (nHashType &&& 0x1f) != SIGHASH_SINGLE &&
          (nHashType &&& 0x1f) != SIGHASH_NONE then
        cached (·.hashSequence) (GetSequenceHash hash256 txTo) else UInt256.zero
    let hashOutputs :=
      if (nHashType &&& 0x1f) != SIGHASH_SINGLE && (nHashType &&& 0x1f) != SIGHASH_NONE then
        cached (·.hashOutputs) (GetOutputsHash hash256 txTo)
      else if (nHashType &&& 0x1f) == SIGHASH_SINGLE && nIn.val < txTo.vout.length then
        hash256 (CTxOut.serialize CDataStream (nth txTo.vout nIn.val))
      else UInt256.zero
    let txin := txTo.vin[nIn]
    serializeInt32 txTo.nVersion ++ hashPrevouts.data ++ hashSequence.data ++
      txin.prevout.serialize ++ serializeScript CDataStream scriptCode ++ serializeInt64 amount ++
      ser_writedata32 txin.nSequence ++ hashOutputs.data ++ ser_writedata32 txTo.nLockTime ++
      serializeInt32 nHashType
  else if (nHashType &&& 0x1f) == SIGHASH_SINGLE && nIn.val ≥ txTo.vout.length then
    ser_writedata8 1
  else
    let txTmp := CTransactionSignatureSerializer.mk' txTo scriptCode nIn.val nHashType
    txTmp.Serialize ++ serializeInt32 nHashType

/-- The ECDSA digest that `CKey::Sign` signs and `CPubKey::Verify` checks for a
message: the constant one for the single byte `1`, its double SHA-256 otherwise. -/
def messageDigest (msg : List UInt8) : UInt256 :=
  if msg.length == 1 && msg.head? == some 1 then UInt256.one else hash256 msg

theorem messageDigest_one : messageDigest hash256 (ser_writedata8 1) = UInt256.one := rfl

/-- A message longer than one byte is hashed. -/
theorem messageDigest_of_two_le {msg : List UInt8} (h : 2 ≤ msg.length) :
    messageDigest hash256 msg = hash256 msg := by
  have hlen : (msg.length == 1) = false := by simp; omega
  simp [messageDigest, hlen]

@[simp] theorem length_serializeInt32 (x : Int32) : (serializeInt32 x).length = 4 := by
  simp [serializeInt32, ser_writedata32]

/-- Signing the preimage stream signs the signature hash: `CKey::Sign` and
`CPubKey::Verify` over `Signature` use the digest `SignatureHash` computes, for every
hash type, signature version and cache. -/
theorem messageDigest_Signature (scriptCode : CScript) (txTo : CTransaction)
    (nIn : Fin txTo.vin.length) (nHashType : Int32) (amount : Int64) (sigversion : SigVersion)
    (cache : Option PrecomputedTransactionData) :
    messageDigest hash256 (Signature hash256 scriptCode txTo nIn nHashType amount sigversion cache) =
      SignatureHash hash256 scriptCode txTo nIn nHashType amount sigversion cache := by
  unfold Signature SignatureHash
  by_cases hwitness : sigversion = .SIGVERSION_WITNESS_V0 ∨ sigversion = .SIGVERSION_WITNESS_V1
  · -- BIP143: both hash the same preimage, which is longer than one byte
    rw [if_pos hwitness, if_pos hwitness]
    dsimp only
    apply messageDigest_of_two_le
    simp only [List.length_append, length_serializeInt32]
    omega
  · rw [if_neg hwitness, if_neg hwitness]
    by_cases hsingle : (nHashType &&& 0x1f) == SIGHASH_SINGLE && nIn.val ≥ txTo.vout.length
    · -- out-of-range SINGLE: the byte 1 is signed as the constant one
      rw [if_pos hsingle, if_pos hsingle]
      exact messageDigest_one hash256
    · rw [if_neg hsingle, if_neg hsingle]
      dsimp only
      apply messageDigest_of_two_le
      have hser := CTransactionSignatureSerializer.length_Serialize_ge
        (CTransactionSignatureSerializer.mk' txTo scriptCode nIn.val nHashType)
      simp only [List.length_append, length_serializeInt32]
      omega

end Hashes

end BitcoinPQ

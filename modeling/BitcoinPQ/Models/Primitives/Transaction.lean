import BitcoinPQ.Models.Serialize.Stream

/-!
# Transactions and their wire format

`primitives/transaction.h`: outpoints, inputs, outputs and transactions, with
`SerializeTransaction` and `UnserializeTransaction`. The extended format marks
witness data by an empty input vector followed by a non-zero flag byte; a stream
whose version carries `SERIALIZE_TRANSACTION_NO_WITNESS` never writes or reads it.
A `CScript` is the byte vector `prevector<36, unsigned char>`.
-/

namespace BitcoinPQ

open Wire

/-- `uint256`: 32 raw bytes. -/
structure UInt256 where
  data : List UInt8
  size_eq : data.length = 32
  deriving DecidableEq

/-- The all-zero `uint256()`. -/
def UInt256.zero : UInt256 := ⟨List.replicate 32 0, rfl⟩

/-- `CScript`, a byte vector. -/
abbrev CScript := List UInt8

/-- `COutPoint`: a transaction hash and an output index. -/
structure COutPoint where
  hash : UInt256
  n : UInt32
  deriving DecidableEq

/-- `CScriptWitness`: the witness stack of one input. -/
structure CScriptWitness where
  stack : List (List UInt8)
  deriving DecidableEq

/-- `CTxIn`. -/
structure CTxIn where
  prevout : COutPoint
  scriptSig : CScript
  nSequence : UInt32
  scriptWitness : CScriptWitness
  deriving DecidableEq

/-! ## Amounts

`amount.h`: a `CAmount` is a count of base units, `int64_t` in the source and an
integer here, since every amount the model computes stays far inside that range. -/

/-- `COIN`: base units in one coin. -/
def COIN : Int := 100000000

/-- `MAX_MONEY`: no amount is larger. -/
def MAX_MONEY : Int := 21000000 * COIN

/-- `MoneyRange`. -/
def MoneyRange (nValue : Int) : Bool := nValue ≥ 0 && nValue ≤ MAX_MONEY

/-- `CTxOut`. -/
structure CTxOut where
  nValue : Int64
  scriptPubKey : CScript
  deriving DecidableEq

/-- `CTransaction`, without the cached hash it keeps in memory. -/
structure CTransaction where
  vin : List CTxIn
  vout : List CTxOut
  nVersion : Int32
  nLockTime : UInt32
  deriving DecidableEq

/-- `SEQUENCE_FINAL`, the default `nSequence`. -/
def SEQUENCE_FINAL : UInt32 := 0xffffffff

/-- `SERIALIZE_TRANSACTION_NO_WITNESS`, a bit of the stream version. -/
def SERIALIZE_TRANSACTION_NO_WITNESS : Int32 := 0x40000000

/-- `fAllowWitness` of a stream with version `nVersion`. -/
def allowWitness (nVersion : Int32) : Bool :=
  (nVersion &&& SERIALIZE_TRANSACTION_NO_WITNESS) == 0

/-- `COutPoint::IsNull`. -/
def COutPoint.IsNull (o : COutPoint) : Bool :=
  o.hash.data.all (· == 0) && o.n == 0xffffffff

/-- `CTransaction::IsCoinBase`. -/
def CTransaction.IsCoinBase (tx : CTransaction) : Bool :=
  match tx.vin with
  | [txin] => txin.prevout.IsNull
  | _ => false

/-- `CTransaction::HasWitness`. -/
def CTransaction.HasWitness (tx : CTransaction) : Bool :=
  tx.vin.any fun txin => !txin.scriptWitness.stack.isEmpty

/-- `CTxOut::SetNull` as a value: `CTxOut()`. -/
def CTxOut.null : CTxOut := ⟨-1, []⟩

/-- `CTxOut::IsNull`. -/
def CTxOut.IsNull (o : CTxOut) : Bool := o.nValue == -1

/-! ## Writing

The writers are templates over the stream (`OStream`); only vectors and scripts call
`WriteCompactSize`, so the fixed-width parts are raw bytes.
-/

def serializeInt32 (x : Int32) : List UInt8 := ser_writedata32 x.toUInt32
def serializeInt64 (x : Int64) : List UInt8 := ser_writedata64 x.toUInt64

/-- `CScript` serialization: the `prevector` of bytes. -/
def serializeScript {σ : Type} (S : OStream σ) (s : CScript) : σ := serializeBytes S s

def COutPoint.serialize (o : COutPoint) : List UInt8 := o.hash.data ++ ser_writedata32 o.n

def CTxIn.serialize {σ : Type} (S : OStream σ) (txin : CTxIn) : σ :=
  S.concat [S.write txin.prevout.serialize, serializeScript S txin.scriptSig,
    S.write (ser_writedata32 txin.nSequence)]

def CTxOut.serialize {σ : Type} (S : OStream σ) (o : CTxOut) : σ :=
  S.concat [S.write (serializeInt64 o.nValue), serializeScript S o.scriptPubKey]

/-- A witness stack: a vector of byte vectors. -/
def serializeWitnessStack {σ : Type} (S : OStream σ) (stack : List (List UInt8)) : σ :=
  serializeVector S (serializeBytes S) stack

/-- `SerializeTransaction` on a stream whose version allows witnesses or not. -/
def SerializeTransaction {σ : Type} (S : OStream σ) (fAllowWitness : Bool) (tx : CTransaction) : σ :=
  let flags : UInt8 := if fAllowWitness && tx.HasWitness then 1 else 0
  S.concat [S.write (serializeInt32 tx.nVersion),
    if flags != 0 then
      S.append (serializeVector S (CTxIn.serialize S) []) (S.write (ser_writedata8 flags))
    else S.nil,
    serializeVector S (CTxIn.serialize S) tx.vin, serializeVector S (CTxOut.serialize S) tx.vout,
    if flags &&& 1 != 0 then
      S.concat (tx.vin.map fun txin => serializeWitnessStack S txin.scriptWitness.stack)
    else S.nil,
    S.write (ser_writedata32 tx.nLockTime)]

/-! ### On a byte stream -/

theorem CTxIn.serialize_CDataStream (txin : CTxIn) :
    CTxIn.serialize CDataStream txin = txin.prevout.serialize ++
      serializeScript CDataStream txin.scriptSig ++ ser_writedata32 txin.nSequence := by
  simp [CTxIn.serialize]

theorem CTxOut.serialize_CDataStream (o : CTxOut) :
    CTxOut.serialize CDataStream o =
      serializeInt64 o.nValue ++ serializeScript CDataStream o.scriptPubKey := by
  simp [CTxOut.serialize]

theorem SerializeTransaction_CDataStream (fAllowWitness : Bool) (tx : CTransaction) :
    SerializeTransaction CDataStream fAllowWitness tx =
      let flags : UInt8 := if fAllowWitness && tx.HasWitness then 1 else 0
      serializeInt32 tx.nVersion ++
        (if flags != 0 then
          serializeVector CDataStream (CTxIn.serialize CDataStream) [] ++ ser_writedata8 flags
        else []) ++
        serializeVector CDataStream (CTxIn.serialize CDataStream) tx.vin ++
        serializeVector CDataStream (CTxOut.serialize CDataStream) tx.vout ++
        (if flags &&& 1 != 0 then
          tx.vin.flatMap fun txin => serializeWitnessStack CDataStream txin.scriptWitness.stack
        else []) ++
        ser_writedata32 tx.nLockTime := by
  simp only [SerializeTransaction]
  split_ifs <;> simp [List.flatMap]

/-! ### On any stream

Each writer commutes with a map of streams, so what it leaves on one stream determines
what it leaves on the other: on `CSizeComputer`, the number of bytes it writes.
-/

section Hom

variable {σ τ : Type} {S : OStream σ} {T : OStream τ} (h : S.Hom T)

theorem OStream.Hom.map_serializeScript (s : CScript) :
    h.toFun (serializeScript S s) = serializeScript T s :=
  h.map_serializeBytes s

theorem OStream.Hom.map_CTxIn_serialize (txin : CTxIn) :
    h.toFun (CTxIn.serialize S txin) = CTxIn.serialize T txin := by
  simp only [CTxIn.serialize, h.map_concat, List.map_cons, List.map_nil, h.map_write,
    h.map_serializeScript]

theorem OStream.Hom.map_CTxOut_serialize (o : CTxOut) :
    h.toFun (CTxOut.serialize S o) = CTxOut.serialize T o := by
  simp only [CTxOut.serialize, h.map_concat, List.map_cons, List.map_nil, h.map_write,
    h.map_serializeScript]

theorem OStream.Hom.map_serializeWitnessStack (stack : List (List UInt8)) :
    h.toFun (serializeWitnessStack S stack) = serializeWitnessStack T stack :=
  h.map_serializeVector stack fun item _ => h.map_serializeBytes item

theorem OStream.Hom.map_SerializeTransaction (fAllowWitness : Bool) (tx : CTransaction) :
    h.toFun (SerializeTransaction S fAllowWitness tx) = SerializeTransaction T fAllowWitness tx := by
  have hin := fun v : List CTxIn =>
    h.map_serializeVector v fun txin _ => h.map_CTxIn_serialize txin
  have hout := h.map_serializeVector tx.vout fun o _ => h.map_CTxOut_serialize o
  have hwit : (tx.vin.map fun txin => serializeWitnessStack S txin.scriptWitness.stack).map
      h.toFun = tx.vin.map fun txin => serializeWitnessStack T txin.scriptWitness.stack := by
    simp only [List.map_map, Function.comp_def, h.map_serializeWitnessStack]
  simp only [SerializeTransaction, h.map_concat, List.map_cons, List.map_nil, h.map_write]
  split_ifs <;>
    simp only [h.map_append, h.map_write, h.map_nil, h.map_concat, hin, hout, hwit]

end Hom

/-! ## Reading

The element steps `5000000 / sizeof(T)` of the vector readers are parameters:
`sizeof` of a class depends on the platform.
-/

/-- The platform's element steps of the vector readers, one per element type. -/
structure VectorSteps where
  txin : Nat
  txout : Nat
  item : Nat
  txin_pos : 0 < txin
  txout_pos : 0 < txout
  item_pos : 0 < item

def unserializeInt32 : Reader Int32 := (·.toInt32) <$> ser_readdata32
def unserializeInt64 : Reader Int64 := (·.toInt64) <$> ser_readdata64

def unserializeUInt256 : Reader UInt256 := fun s =>
  if h : 32 ≤ s.length then .ok (⟨s.take 32, by simp; omega⟩, s.drop 32)
  else .error "CDataStream::read(): end of data"

def unserializeScript : Reader CScript := unserializeBytes

def COutPoint.unserialize : Reader COutPoint := do
  let hash ← unserializeUInt256
  let n ← ser_readdata32
  pure ⟨hash, n⟩

/-- `CTxIn` deserialization; the witness is filled in by the transaction reader. -/
def CTxIn.unserialize : Reader CTxIn := do
  let prevout ← COutPoint.unserialize
  let scriptSig ← unserializeScript
  let nSequence ← ser_readdata32
  pure ⟨prevout, scriptSig, nSequence, ⟨[]⟩⟩

def CTxOut.unserialize : Reader CTxOut := do
  let nValue ← unserializeInt64
  let scriptPubKey ← unserializeScript
  pure ⟨nValue, scriptPubKey⟩

def unserializeWitnessStack (steps : VectorSteps) : Reader (List (List UInt8)) :=
  unserializeVector unserializeBytes steps.item steps.item_pos

/-- `s >> tx.vin[i].scriptWitness.stack` for every input, in order. -/
def readWitnesses (steps : VectorSteps) : List CTxIn → Reader (List CTxIn)
  | [] => pure []
  | txin :: vin => do
    let stack ← unserializeWitnessStack steps
    let rest ← readWitnesses steps vin
    pure ({ txin with scriptWitness := ⟨stack⟩ } :: rest)

/-- The end of `UnserializeTransaction`: an unknown flag bit left over fails, then
`nLockTime`. -/
def readLockTime (nVersion : Int32) (flags : UInt8) (vin : List CTxIn) (vout : List CTxOut) :
    Reader CTransaction := do
  if flags != 0 then throw "Unknown transaction optional data"
  let nLockTime ← ser_readdata32
  pure ⟨vin, vout, nVersion, nLockTime⟩

/-- The witness section of `UnserializeTransaction`, read when flag bit 1 is set. -/
def readWitnessSection (steps : VectorSteps) (fAllowWitness : Bool) (nVersion : Int32)
    (flags : UInt8) (vin : List CTxIn) (vout : List CTxOut) : Reader CTransaction :=
  if flags &&& 1 != 0 ∧ fAllowWitness then do
    let vin ← readWitnesses steps vin
    readLockTime nVersion (flags ^^^ 1) vin vout
  else readLockTime nVersion flags vin vout

/-- `UnserializeTransaction`, into a fresh `CMutableTransaction`. The code after the
branches on the marker is the continuation `readWitnessSection`. -/
def UnserializeTransaction (steps : VectorSteps) (fAllowWitness : Bool) : Reader CTransaction := do
  let nVersion ← unserializeInt32
  let readVin := unserializeVector CTxIn.unserialize steps.txin steps.txin_pos
  let readVout := unserializeVector CTxOut.unserialize steps.txout steps.txout_pos
  let vin ← readVin
  -- An empty `vin` is either the dummy of the extended format or a real empty vector.
  if vin.length = 0 ∧ fAllowWitness then do
    let flags ← ser_readdata8
    if flags != 0 then do
      let vin ← readVin
      let vout ← readVout
      readWitnessSection steps fAllowWitness nVersion flags vin vout
    else readWitnessSection steps fAllowWitness nVersion flags vin []
  else do
    let vout ← readVout
    readWitnessSection steps fAllowWitness nVersion 0 vin vout

end BitcoinPQ

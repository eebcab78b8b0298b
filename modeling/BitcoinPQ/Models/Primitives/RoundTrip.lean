import BitcoinPQ.Models.Primitives.Transaction

/-!
# Transactions read back from their bytes

Field by field, every part of a transaction reads back from what the writer emits,
as long as every vector is within `MAX_SIZE`. An input reads back without its
witness: witnesses travel in a section of their own, which the transaction reader
only looks for after the marker of the extended format. A transaction with inputs
is never mistaken for that marker, so the whole format round-trips; without
witness serialization the witness stacks come back empty.
-/

namespace BitcoinPQ

open Wire

/-- Every vector of the transaction, script and witness item fits `ReadCompactSize`. -/
def CTransaction.SizesWithin (tx : CTransaction) : Prop :=
  tx.vin.length ≤ MAX_SIZE ∧ tx.vout.length ≤ MAX_SIZE ∧
    (∀ txin ∈ tx.vin, txin.scriptSig.length ≤ MAX_SIZE ∧
      txin.scriptWitness.stack.length ≤ MAX_SIZE ∧
      ∀ item ∈ txin.scriptWitness.stack, item.length ≤ MAX_SIZE) ∧
    ∀ txout ∈ tx.vout, txout.scriptPubKey.length ≤ MAX_SIZE

instance (tx : CTransaction) : Decidable tx.SizesWithin :=
  inferInstanceAs (Decidable (_ ∧ _ ∧ (∀ txin ∈ tx.vin, _ ∧ _ ∧ ∀ item ∈ _, _) ∧
    ∀ txout ∈ tx.vout, _))

/-- An input as it comes back from `CTxIn` deserialization. -/
def CTxIn.stripWitness (txin : CTxIn) : CTxIn := { txin with scriptWitness := ⟨[]⟩ }

/-- The transaction with every witness stack emptied. -/
def CTransaction.stripWitness (tx : CTransaction) : CTransaction :=
  { tx with vin := tx.vin.map CTxIn.stripWitness }

@[simp] theorem CTxIn.serialize_stripWitness {σ : Type} (S : OStream σ) (txin : CTxIn) :
    CTxIn.serialize S txin.stripWitness = CTxIn.serialize S txin := rfl

theorem unserializeInt32_reads : Reads unserializeInt32 serializeInt32 (fun _ => True) := by
  intro x rest _
  rw [unserializeInt32, StateT.run_map, serializeInt32, ser_readdata32_reads _ rest trivial]
  simp

theorem unserializeInt64_reads : Reads unserializeInt64 serializeInt64 (fun _ => True) := by
  intro x rest _
  rw [unserializeInt64, StateT.run_map, serializeInt64, ser_readdata64_reads _ rest trivial]
  simp

theorem unserializeUInt256_reads : Reads unserializeUInt256 UInt256.data (fun _ => True) := by
  intro ⟨data, hdata⟩ rest _
  have hle : 32 ≤ (data ++ rest).length := by simp [hdata]
  simp only [StateT.run, unserializeUInt256, dif_pos hle]
  congr
  · simp [← hdata]
  · simp [← hdata]

theorem unserializeScript_reads :
    Reads unserializeScript (serializeScript CDataStream) (fun s => s.length ≤ MAX_SIZE) :=
  unserializeBytes_reads

theorem COutPoint.unserialize_reads :
    Reads COutPoint.unserialize COutPoint.serialize (fun _ => True) := by
  intro o rest _
  rw [COutPoint.unserialize, COutPoint.serialize, List.append_assoc,
    unserializeUInt256_reads.run_bind trivial, ser_readdata32_reads.run_bind trivial]
  rfl

theorem CTxIn.unserialize_reads :
    Reads CTxIn.unserialize (CTxIn.serialize CDataStream)
      (fun txin => txin.scriptWitness = ⟨[]⟩ ∧ txin.scriptSig.length ≤ MAX_SIZE) := by
  intro ⟨prevout, scriptSig, nSequence, wit⟩ rest ⟨hw, hs⟩
  simp only at hw hs
  subst hw
  rw [CTxIn.unserialize, CTxIn.serialize_CDataStream, List.append_assoc, List.append_assoc,
    COutPoint.unserialize_reads.run_bind trivial, unserializeScript_reads.run_bind hs,
    ser_readdata32_reads.run_bind trivial]
  rfl

theorem CTxOut.unserialize_reads :
    Reads CTxOut.unserialize (CTxOut.serialize CDataStream) (fun o => o.scriptPubKey.length ≤ MAX_SIZE) := by
  intro ⟨nValue, script⟩ rest hs
  rw [CTxOut.unserialize, CTxOut.serialize_CDataStream, List.append_assoc,
    unserializeInt64_reads.run_bind trivial, unserializeScript_reads.run_bind hs]
  rfl

theorem unserializeWitnessStack_reads (steps : VectorSteps) :
    Reads (unserializeWitnessStack steps) (serializeWitnessStack CDataStream)
      (fun stack => stack.length ≤ MAX_SIZE ∧ ∀ item ∈ stack, item.length ≤ MAX_SIZE) :=
  unserializeVector_reads unserializeBytes_reads steps.item steps.item_pos

/-- The witness section gives every input back its own stack. -/
theorem readWitnesses_run (steps : VectorSteps) (vin : List CTxIn)
    (hvin : ∀ txin ∈ vin, txin.scriptWitness.stack.length ≤ MAX_SIZE ∧
      ∀ item ∈ txin.scriptWitness.stack, item.length ≤ MAX_SIZE)
    (rest : List UInt8) :
    (readWitnesses steps (vin.map CTxIn.stripWitness)).run
        (vin.flatMap (fun txin => serializeWitnessStack CDataStream txin.scriptWitness.stack) ++ rest) =
      .ok (vin, rest) := by
  induction vin with
  | nil => rfl
  | cons txin vin ih =>
    have hhead := hvin txin (by simp)
    have htail : ∀ t ∈ vin, t.scriptWitness.stack.length ≤ MAX_SIZE ∧
        ∀ item ∈ t.scriptWitness.stack, item.length ≤ MAX_SIZE :=
      fun t ht => hvin t (by simp [ht])
    rw [List.map_cons, readWitnesses, List.flatMap_cons, List.append_assoc,
      (unserializeWitnessStack_reads steps).run_bind hhead, StateT.run_bind, ih htail]
    rfl

/-- Without a witness, stripping the witness stacks changes nothing. -/
theorem CTransaction.map_stripWitness_of_not_HasWitness {tx : CTransaction}
    (h : tx.HasWitness = false) : tx.vin.map CTxIn.stripWitness = tx.vin := by
  have hid : ∀ txin ∈ tx.vin, CTxIn.stripWitness txin = id txin := by
    intro txin htxin
    have hempty : txin.scriptWitness.stack = [] := by
      simp only [CTransaction.HasWitness, List.any_eq_false, Bool.not_eq_eq_eq_not,
        Bool.not_true, List.isEmpty_eq_false_iff, ne_eq, not_not] at h
      exact h txin htxin
    simp [CTxIn.stripWitness, ← hempty]
  rw [List.map_congr_left hid, List.map_id]

/-- The inputs are written as if they had no witness. -/
theorem serializeVector_stripWitness (vin : List CTxIn) :
    serializeVector CDataStream (CTxIn.serialize CDataStream) vin =
      serializeVector CDataStream (CTxIn.serialize CDataStream) (vin.map CTxIn.stripWitness) := by
  simp [serializeVector, List.map_map, Function.comp_def]

theorem unserializeVin_run (steps : VectorSteps) (vin : List CTxIn)
    (hlen : vin.length ≤ MAX_SIZE) (hs : ∀ txin ∈ vin, txin.scriptSig.length ≤ MAX_SIZE)
    (rest : List UInt8) :
    (unserializeVector CTxIn.unserialize steps.txin steps.txin_pos).run
        (serializeVector CDataStream (CTxIn.serialize CDataStream) vin ++ rest) =
      .ok (vin.map CTxIn.stripWitness, rest) := by
  rw [serializeVector_stripWitness]
  exact unserializeVector_reads CTxIn.unserialize_reads _ _ _ rest
    ⟨by simpa using hlen, fun t ht => by
      obtain ⟨txin, htxin, rfl⟩ := List.mem_map.mp ht
      exact ⟨rfl, hs txin htxin⟩⟩

theorem unserializeVout_run (steps : VectorSteps) (vout : List CTxOut)
    (hlen : vout.length ≤ MAX_SIZE) (hs : ∀ txout ∈ vout, txout.scriptPubKey.length ≤ MAX_SIZE)
    (rest : List UInt8) :
    (unserializeVector CTxOut.unserialize steps.txout steps.txout_pos).run
        (serializeVector CDataStream (CTxOut.serialize CDataStream) vout ++ rest) = .ok (vout, rest) :=
  unserializeVector_reads CTxOut.unserialize_reads _ _ _ rest ⟨hlen, hs⟩

/-- A transaction with inputs reads back from its serialization: with its witnesses
when the stream allows them, with empty witness stacks otherwise, and every byte
after it is left to the next reader. -/
theorem UnserializeTransaction_SerializeTransaction (steps : VectorSteps) (fAllowWitness : Bool)
    (tx : CTransaction) (hvin : tx.vin ≠ []) (hsize : tx.SizesWithin) (rest : List UInt8) :
    (UnserializeTransaction steps fAllowWitness).run
        (SerializeTransaction CDataStream fAllowWitness tx ++ rest) =
      .ok (if fAllowWitness then tx else tx.stripWitness, rest) := by
  obtain ⟨hnin, hnout, hins, houts⟩ := hsize
  have hscripts : ∀ txin ∈ tx.vin, txin.scriptSig.length ≤ MAX_SIZE := fun t ht => (hins t ht).1
  have hwits := fun t ht => (hins t ht).2
  have hlen : (tx.vin.map CTxIn.stripWitness).length ≠ 0 := by simpa using hvin
  cases hw : (fAllowWitness && tx.HasWitness) with
  | true =>
    obtain ⟨rfl, hhas⟩ := Bool.and_eq_true_iff.mp hw
    have h1 : ((1 : UInt8) != 0) = true := rfl
    have h11 : ((1 : UInt8) &&& 1 != 0) = true := rfl
    simp only [SerializeTransaction_CDataStream, hw, if_true, h1, h11, List.append_assoc]
    rw [UnserializeTransaction, unserializeInt32_reads.run_bind trivial, StateT.run_bind,
      unserializeVin_run steps [] (by simp) (by simp)]
    simp only [except_ok_bind, List.map_nil, List.length_nil, and_self, if_true]
    rw [ser_readdata8_reads.run_bind trivial, if_pos h1, StateT.run_bind,
      unserializeVin_run steps tx.vin hnin hscripts, except_ok_bind, StateT.run_bind,
      unserializeVout_run steps tx.vout hnout houts, except_ok_bind, readWitnessSection,
      if_pos ⟨h11, rfl⟩, StateT.run_bind, readWitnesses_run steps tx.vin hwits, except_ok_bind,
      readLockTime]
    simp only [show ((1 : UInt8) ^^^ 1 != 0) = false from rfl, Bool.false_eq_true, if_false]
    rw [ser_readdata32_reads.run_bind trivial]
    rfl
  | false =>
    have hflags : ((0 : UInt8) != 0) = false := rfl
    simp only [SerializeTransaction_CDataStream, hw, Bool.false_eq_true, if_false, hflags,
      show ((0 : UInt8) &&& 1 != 0) = false from rfl, List.nil_append, List.append_assoc]
    rw [UnserializeTransaction, unserializeInt32_reads.run_bind trivial, StateT.run_bind,
      unserializeVin_run steps tx.vin hnin hscripts, except_ok_bind, if_neg (fun h => hlen h.1),
      StateT.run_bind, unserializeVout_run steps tx.vout hnout houts, except_ok_bind,
      readWitnessSection, if_neg (by simp), readLockTime]
    simp only [hflags, Bool.false_eq_true, if_false]
    rw [ser_readdata32_reads.run_bind trivial]
    cases hallow : fAllowWitness with
    | true =>
      have hnone : tx.HasWitness = false := by simpa [hallow] using hw
      simp only [if_true, CTransaction.map_stripWitness_of_not_HasWitness hnone]
      rfl
    | false => rfl

/-- One input carrying a one-item witness, read back through the extended format. -/
theorem UnserializeTransaction_SerializeTransaction_segwit :
    let steps : VectorSteps := ⟨1, 1, 1, by decide, by decide, by decide⟩
    let tx : CTransaction :=
      ⟨[⟨⟨⟨List.replicate 32 0, rfl⟩, 0⟩, [], SEQUENCE_FINAL, ⟨[[1]]⟩⟩], [⟨5, [0x51]⟩], 2, 0⟩
    tx.vin ≠ [] ∧ tx.SizesWithin ∧
      (UnserializeTransaction steps true).run (SerializeTransaction CDataStream true tx ++ []) =
        .ok (tx, []) :=
  ⟨by decide, by decide,
    UnserializeTransaction_SerializeTransaction _ true _ (by decide) (by decide) []⟩

end BitcoinPQ

import BitcoinPQ.Core.Wire

/-!
# Streams, fixed-width integers and CompactSize

The lowest layer of `serialize.h`: `ser_writedata*` and `ser_readdata*` write and read
little-endian words, `CDataStream::read` fails at the end of its data, and
`WriteCompactSize`/`ReadCompactSize` give vector lengths their one-to-nine byte
prefix. Reading inverts writing both ways: what is written reads back (`Reads`), and
what is read was written (`Canonical`), so a length has one encoding. A stream is the
list of its unread bytes; every read throws an
`std::ios_base::failure`, modelled as the failure's message.
-/

namespace BitcoinPQ

open Wire

/-- A stream being read: the unread bytes, or the message of the failure thrown. -/
abbrev Reader := StateT (List UInt8) (Except String)

/-- `MAX_SIZE`: the largest length `ReadCompactSize` accepts. -/
def MAX_SIZE : Nat := 0x06000000

/-- `CDataStream::read`: the next `n` bytes of the stream. -/
def readBytes (n : Nat) : Reader (List UInt8) := fun s =>
  match take? n s with
  | some r => .ok r
  | none => .error "CDataStream::read(): end of data"

theorem readBytes_run {bs : List UInt8} {n : Nat} (h : bs.length = n) (rest : List UInt8) :
    (readBytes n).run (bs ++ rest) = .ok (bs, rest) := by
  simp only [StateT.run, readBytes, take?_append h]

/-! ## Fixed-width words -/

def ser_writedata8 (x : UInt8) : List UInt8 := [x]
def ser_writedata16 (x : UInt16) : List UInt8 := leBytes 2 x.toNat
def ser_writedata32 (x : UInt32) : List UInt8 := leBytes 4 x.toNat
def ser_writedata64 (x : UInt64) : List UInt8 := leBytes 8 x.toNat

/-- A little-endian word of `n` bytes, as `ser_readdata*` reads it. -/
def readLE (n : Nat) : Reader Nat := leValue <$> readBytes n

def ser_readdata8 : Reader UInt8 := (fun bs => UInt8.ofNat (leValue bs)) <$> readBytes 1
def ser_readdata16 : Reader UInt16 := UInt16.ofNat <$> readLE 2
def ser_readdata32 : Reader UInt32 := UInt32.ofNat <$> readLE 4
def ser_readdata64 : Reader UInt64 := UInt64.ofNat <$> readLE 8

theorem readLE_reads (n : Nat) : Reads (readLE n) (leBytes n) (· < 256 ^ n) := by
  intro x rest hx
  rw [readLE, StateT.run_map, readBytes_run (length_leBytes n x)]
  simp [leValue_leBytes_of_lt hx]

theorem ser_readdata8_reads : Reads ser_readdata8 ser_writedata8 (fun _ => True) := by
  intro x rest _
  rw [ser_readdata8, StateT.run_map, ser_writedata8, List.singleton_append,
    ← List.singleton_append, @readBytes_run [x] 1 rfl]
  simp [UInt8.ofNat_toNat]

theorem ser_readdata16_reads : Reads ser_readdata16 ser_writedata16 (fun _ => True) := by
  intro x rest _
  rw [ser_readdata16, StateT.run_map, ser_writedata16,
    readLE_reads 2 x.toNat rest (by have := x.toNat_lt; omega)]
  simp [UInt16.ofNat_toNat]

theorem ser_readdata32_reads : Reads ser_readdata32 ser_writedata32 (fun _ => True) := by
  intro x rest _
  rw [ser_readdata32, StateT.run_map, ser_writedata32,
    readLE_reads 4 x.toNat rest (by have := x.toNat_lt; omega)]
  simp [UInt32.ofNat_toNat]

theorem ser_readdata64_reads : Reads ser_readdata64 ser_writedata64 (fun _ => True) := by
  intro x rest _
  rw [ser_readdata64, StateT.run_map, ser_writedata64,
    readLE_reads 8 x.toNat rest (by have := x.toNat_lt; omega)]
  simp [UInt64.ofNat_toNat]

/-- `readBytes` takes exactly the front `n` bytes. -/
theorem readBytes_run_eq_ok {n : Nat} {s bs rest : List UInt8} :
    (readBytes n).run s = .ok (bs, rest) ↔ bs.length = n ∧ s = bs ++ rest := by
  rw [← take?_eq_some]
  simp only [StateT.run, readBytes]
  split <;> simp_all

/-- A fixed-width word is read only from its own little-endian bytes. -/
theorem readLE_canonical (n : Nat) : Canonical (readLE n) (leBytes n) := by
  intro s v rest hrun
  rw [readLE, StateT.run_map] at hrun
  cases hr : (readBytes n).run s with
  | error e => rw [hr] at hrun; cases hrun
  | ok p =>
    rw [hr] at hrun
    obtain ⟨bs, rest'⟩ := p
    cases hrun
    obtain ⟨hlen, rfl⟩ := readBytes_run_eq_ok.mp hr
    rw [← hlen, leBytes_leValue]

theorem ser_readdata8_canonical : Canonical ser_readdata8 ser_writedata8 := by
  have hmap : ser_readdata8 = UInt8.ofNat <$> readLE 1 := by
    rw [ser_readdata8, readLE, Functor.map_map]
  rw [hmap]
  refine (readLE_canonical 1).map _ _ fun v => ?_
  have hbyte : UInt8.ofNat (v % 256) = UInt8.ofNat v := by
    rw [← UInt8.toNat_inj, UInt8.toNat_ofNat', UInt8.toNat_ofNat']
    simp
  simp [ser_writedata8, leBytes, hbyte]

theorem ser_readdata16_canonical : Canonical ser_readdata16 ser_writedata16 :=
  (readLE_canonical 2).map _ _ fun v => by
    rw [ser_writedata16, UInt16.toNat_ofNat', show (2 : Nat) ^ 16 = 256 ^ 2 from rfl, leBytes_mod]

theorem ser_readdata32_canonical : Canonical ser_readdata32 ser_writedata32 :=
  (readLE_canonical 4).map _ _ fun v => by
    rw [ser_writedata32, UInt32.toNat_ofNat', show (2 : Nat) ^ 32 = 256 ^ 4 from rfl, leBytes_mod]

/-! ## CompactSize -/

/-- `GetSizeOfCompactSize`. -/
def GetSizeOfCompactSize (nSize : Nat) : Nat :=
  if nSize < 253 then 1
  else if nSize ≤ 0xffff then 3
  else if nSize ≤ 0xffffffff then 5
  else 9

/-- `WriteCompactSize` on a real stream. -/
def WriteCompactSize (nSize : Nat) : List UInt8 :=
  if nSize < 253 then ser_writedata8 (UInt8.ofNat nSize)
  else if nSize ≤ 0xffff then ser_writedata8 253 ++ ser_writedata16 (UInt16.ofNat nSize)
  else if nSize ≤ 0xffffffff then ser_writedata8 254 ++ ser_writedata32 (UInt32.ofNat nSize)
  else ser_writedata8 255 ++ ser_writedata64 (UInt64.ofNat nSize)

/-- `ReadCompactSize`: canonical encodings of lengths up to `MAX_SIZE` only. -/
def ReadCompactSize : Reader Nat := do
  let chSize ← ser_readdata8
  let nSizeRet ←
    if chSize < 253 then pure chSize.toNat
    else if chSize = 253 then do
      let n := (← ser_readdata16).toNat
      if n < 253 then throw "non-canonical ReadCompactSize()" else pure n
    else if chSize = 254 then do
      let n := (← ser_readdata32).toNat
      if n < 0x10000 then throw "non-canonical ReadCompactSize()" else pure n
    else do
      let n := (← ser_readdata64).toNat
      if n < 0x100000000 then throw "non-canonical ReadCompactSize()" else pure n
  if nSizeRet > MAX_SIZE then throw "ReadCompactSize(): size too large"
  pure nSizeRet

/-- A written CompactSize is as long as `GetSizeOfCompactSize` says, below `2^64`. -/
theorem length_WriteCompactSize (n : Nat) :
    (WriteCompactSize n).length = GetSizeOfCompactSize n := by
  unfold WriteCompactSize GetSizeOfCompactSize
  split_ifs <;> simp [ser_writedata8, ser_writedata16, ser_writedata32, ser_writedata64]

/-- Every length `ReadCompactSize` accepts reads back from its encoding. -/
theorem ReadCompactSize_reads : Reads ReadCompactSize WriteCompactSize (· ≤ MAX_SIZE) := by
  intro n rest hn
  have hmax : MAX_SIZE = 0x06000000 := rfl
  unfold WriteCompactSize
  split_ifs with h1 h2
  · have hlt : UInt8.ofNat n < 253 := by
      rw [UInt8.lt_iff_toNat_lt, UInt8.toNat_ofNat']
      simp; omega
    have hv : (UInt8.ofNat n).toNat = n := by rw [UInt8.toNat_ofNat']; simp; omega
    rw [ReadCompactSize, ser_readdata8_reads.run_bind trivial]
    simp [hlt, hv, show ¬ n > MAX_SIZE by omega]
    rfl
  · have hv : (UInt16.ofNat n).toNat = n := by rw [UInt16.toNat_ofNat']; simp; omega
    rw [ReadCompactSize, ser_readdata8_reads.run_bind_append trivial]
    simp only [show ¬ (253 : UInt8) < 253 by decide, if_false, if_true]
    rw [StateT.run_bind, ser_readdata16_reads (UInt16.ofNat n) rest trivial]
    simp [hv, show ¬ n < 253 by omega, show ¬ n > MAX_SIZE by omega]
    rfl
  · have hv : (UInt32.ofNat n).toNat = n := by rw [UInt32.toNat_ofNat']; simp; omega
    rw [ReadCompactSize, ser_readdata8_reads.run_bind_append trivial]
    simp only [show ¬ (254 : UInt8) < 253 by decide, show ¬ (254 : UInt8) = 253 by decide,
      if_false, if_true]
    rw [StateT.run_bind, ser_readdata32_reads (UInt32.ofNat n) rest trivial]
    simp [hv, show ¬ n < 0x10000 by omega, show ¬ n > MAX_SIZE by omega]
    rfl
  · omega

/-- The size check that ends every branch of `ReadCompactSize`. -/
theorem readCompactSize_check {m n : Nat} {s rest : List UInt8}
    (h : (do
      let nSizeRet ← (pure m : Reader Nat)
      if nSizeRet > MAX_SIZE then throw "ReadCompactSize(): size too large"
      pure nSizeRet).run s = .ok (n, rest)) : m ≤ MAX_SIZE ∧ n = m ∧ rest = s := by
  simp only [pure_bind] at h
  split_ifs at h with hmax
  · simp at h
  · simp only [StateT.run_pure, except_pure, Except.ok.injEq, Prod.mk.injEq] at h
    obtain ⟨rfl, rfl⟩ := h
    exact ⟨by omega, rfl, rfl⟩

/-- A width's payload, once its canonicity check has passed. -/
theorem readCompactSize_wide {m n : Nat} {s rest : List UInt8} {c : Prop} [Decidable c]
    (h : (if c then (do
      let nSizeRet ← (throw "non-canonical ReadCompactSize()" : Reader Nat)
      if nSizeRet > MAX_SIZE then throw "ReadCompactSize(): size too large"
      pure nSizeRet) else (do
      let nSizeRet ← (pure m : Reader Nat)
      if nSizeRet > MAX_SIZE then throw "ReadCompactSize(): size too large"
      pure nSizeRet)).run s = .ok (n, rest)) : ¬c ∧ m ≤ MAX_SIZE ∧ n = m ∧ rest = s := by
  split_ifs at h with hc
  · simp at h
  · exact ⟨hc, readCompactSize_check h⟩

/-- `ReadCompactSize` accepts only the canonical encoding of a length up to `MAX_SIZE`. -/
theorem ReadCompactSize_canonical {s rest : List UInt8} {n : Nat}
    (h : ReadCompactSize.run s = .ok (n, rest)) : n ≤ MAX_SIZE ∧ s = WriteCompactSize n ++ rest := by
  have hmax : MAX_SIZE = 0x06000000 := rfl
  rw [ReadCompactSize, StateT.run_bind, except_bind_eq_ok] at h
  obtain ⟨⟨ch, s1⟩, h8, h⟩ := h
  have hs : s = ser_writedata8 ch ++ s1 := ser_readdata8_canonical s ch s1 h8
  dsimp only at h
  -- the marker byte picks the width, whose payload must need that width
  split_ifs at h with h1 h2 h3
  · obtain ⟨hle, rfl, rfl⟩ := readCompactSize_check h
    have hlt : ch.toNat < 253 := UInt8.lt_iff_toNat_lt.mp h1
    refine ⟨hle, ?_⟩
    rw [hs, WriteCompactSize, if_pos hlt, UInt8.ofNat_toNat]
  · rw [StateT.run_bind, except_bind_eq_ok] at h
    obtain ⟨⟨x, s2⟩, hx, h⟩ := h
    dsimp only at h
    obtain ⟨hlow, hle, rfl, rfl⟩ := readCompactSize_wide h
    have hx' := ser_readdata16_canonical s1 x rest hx
    have hw : x.toNat ≤ 0xffff := by have := x.toNat_lt; omega
    refine ⟨hle, ?_⟩
    rw [hs, hx', h2, WriteCompactSize, if_neg hlow, if_pos hw, UInt16.ofNat_toNat, List.append_assoc]
  · rw [StateT.run_bind, except_bind_eq_ok] at h
    obtain ⟨⟨x, s2⟩, hx, h⟩ := h
    dsimp only at h
    obtain ⟨hlow, hle, rfl, rfl⟩ := readCompactSize_wide h
    have hx' := ser_readdata32_canonical s1 x rest hx
    have hw : x.toNat ≤ 0xffffffff := by have := x.toNat_lt; omega
    refine ⟨hle, ?_⟩
    rw [hs, hx', h3, WriteCompactSize, if_neg (by omega), if_neg (by omega), if_pos hw,
      UInt32.ofNat_toNat, List.append_assoc]
  · -- a nine-byte size is at least 2^32, beyond MAX_SIZE
    rw [StateT.run_bind, except_bind_eq_ok] at h
    obtain ⟨⟨x, s2⟩, hx, h⟩ := h
    dsimp only at h
    obtain ⟨hlow, hle, rfl, rfl⟩ := readCompactSize_wide h
    omega

/-! ## Output streams

`Serialize` is a template over its stream. A serializer is modelled by what it leaves
in the stream: its bytes on a stream that keeps them, their number on
`CSizeComputer`. The stream's type picks the overload of `WriteCompactSize`.
-/

/-- An output stream as the serialization templates see it. -/
structure OStream (σ : Type) where
  /-- Nothing written. -/
  nil : σ
  /-- One serializer's output followed by another's. -/
  append : σ → σ → σ
  /-- `s.write` of raw bytes. -/
  write : List UInt8 → σ
  /-- The `WriteCompactSize` overload of the stream's type. -/
  WriteCompactSize : Nat → σ

/-- Serializers run one after another. -/
def OStream.concat {σ : Type} (S : OStream σ) (xs : List σ) : σ := xs.foldr S.append S.nil

/-- A stream that keeps its bytes: `CDataStream`, `CVectorWriter`, and what a
`CHashWriter` hashes. -/
def CDataStream : OStream (List UInt8) where
  nil := []
  append := (· ++ ·)
  write := id
  WriteCompactSize := WriteCompactSize

/-- `CSizeComputer`: `write` adds the length, and `WriteCompactSize` seeks by
`GetSizeOfCompactSize`. -/
def CSizeComputer : OStream Nat where
  nil := 0
  append := (· + ·)
  write := List.length
  WriteCompactSize := GetSizeOfCompactSize

@[simp] theorem CDataStream_append (a b : List UInt8) : CDataStream.append a b = a ++ b := rfl
@[simp] theorem CDataStream_write (bs : List UInt8) : CDataStream.write bs = bs := rfl
@[simp] theorem CDataStream_nil : CDataStream.nil = [] := rfl
@[simp] theorem CDataStream_WriteCompactSize (n : Nat) :
    CDataStream.WriteCompactSize n = WriteCompactSize n := rfl

@[simp] theorem CDataStream_concat (xs : List (List UInt8)) : CDataStream.concat xs = xs.flatten := by
  induction xs with
  | nil => rfl
  | cons x xs ih => simp only [OStream.concat, List.foldr_cons, List.flatten_cons] at ih ⊢; rw [← ih]; rfl

/-- A map of streams that commutes with everything a serializer does. -/
structure OStream.Hom {σ τ : Type} (S : OStream σ) (T : OStream τ) where
  toFun : σ → τ
  map_nil : toFun S.nil = T.nil
  map_append : ∀ a b, toFun (S.append a b) = T.append (toFun a) (toFun b)
  map_write : ∀ bs, toFun (S.write bs) = T.write bs
  map_WriteCompactSize : ∀ n, toFun (S.WriteCompactSize n) = T.WriteCompactSize n

namespace OStream.Hom

variable {σ τ : Type} {S : OStream σ} {T : OStream τ} (h : S.Hom T)

theorem map_concat (xs : List σ) : h.toFun (S.concat xs) = T.concat (xs.map h.toFun) := by
  induction xs with
  | nil => exact h.map_nil
  | cons x xs ih =>
    simp only [OStream.concat, List.foldr_cons, List.map_cons] at ih ⊢
    rw [h.map_append, ih]

end OStream.Hom

/-- `CSizeComputer` counts exactly the bytes a real stream holds. -/
def lengthHom : CDataStream.Hom CSizeComputer where
  toFun := List.length
  map_nil := rfl
  map_append _ _ := List.length_append
  map_write _ := rfl
  map_WriteCompactSize := length_WriteCompactSize

/-! ## Vectors

`Unserialize_impl` never allocates more than about five million bytes before it has
read them: a byte vector is read in blocks of at most `5000000` bytes, and a vector
of other elements grows by `5000000 / sizeof(T)` elements at a time, each read in
turn. `sizeof(T)` depends on the platform, so the element step is a parameter.
-/

/-- `Serialize_impl` for a vector of `unsigned char`: `WriteCompactSize` and the raw data. -/
def serializeBytes {σ : Type} (S : OStream σ) (v : List UInt8) : σ :=
  S.append (S.WriteCompactSize v.length) (S.write v)

/-- The block loop of the byte-vector `Unserialize_impl`, from element `i` on. -/
def readByteBlocks (nSize : Nat) (i : Nat) (v : List UInt8) : Reader (List UInt8) :=
  if i < nSize then do
    let blk := min (nSize - i) (1 + 4999999 / 1)
    let data ← readBytes blk
    readByteBlocks nSize (i + blk) (v ++ data)
  else pure v
termination_by nSize - i

/-- `Unserialize_impl` for a vector of `unsigned char`. -/
def unserializeBytes : Reader (List UInt8) := do
  let nSize ← ReadCompactSize
  readByteBlocks nSize 0 []

/-- The element loop of `Unserialize_impl`: grow to `nMid` by `step` elements and
read the new ones. -/
def readElementBlocks {α : Type} (item : Reader α) (step nSize : Nat) (hstep : 0 < step)
    (nMid : Nat) (v : List α) : Reader (List α) :=
  if nMid < nSize then do
    let nMid' := min (nMid + step) nSize
    let xs ← readMany item (nMid' - nMid)
    readElementBlocks item step nSize hstep nMid' (v ++ xs)
  else pure v
termination_by nSize - nMid

/-- `Unserialize_impl` for a vector of non-byte elements, `step = 5000000 / sizeof(T)`. -/
def unserializeVector {α : Type} (item : Reader α) (step : Nat) (hstep : 0 < step) :
    Reader (List α) := do
  let nSize ← ReadCompactSize
  readElementBlocks item step nSize hstep 0 []

/-- `Serialize_impl` for a vector of non-byte elements. -/
def serializeVector {σ α : Type} (S : OStream σ) (item : α → σ) (v : List α) : σ :=
  S.append (S.WriteCompactSize v.length) (S.concat (v.map item))

theorem serializeBytes_CDataStream (v : List UInt8) :
    serializeBytes CDataStream v = WriteCompactSize v.length ++ v := rfl

theorem serializeVector_CDataStream {α : Type} (item : α → List UInt8) (v : List α) :
    serializeVector CDataStream item v = WriteCompactSize v.length ++ v.flatMap item := by
  simp [serializeVector, List.flatMap]

theorem OStream.Hom.map_serializeBytes {σ τ : Type} {S : OStream σ} {T : OStream τ}
    (h : S.Hom T) (v : List UInt8) : h.toFun (serializeBytes S v) = serializeBytes T v := by
  rw [serializeBytes, serializeBytes, h.map_append, h.map_WriteCompactSize, h.map_write]

/-- A vector maps over a stream map when each of its elements does. -/
theorem OStream.Hom.map_serializeVector {σ τ α : Type} {S : OStream σ} {T : OStream τ}
    (h : S.Hom T) {item : α → σ} {item' : α → τ} (v : List α)
    (hitem : ∀ x ∈ v, h.toFun (item x) = item' x) :
    h.toFun (serializeVector S item v) = serializeVector T item' v := by
  have hmap : (v.map item).map h.toFun = v.map item' := by
    rw [List.map_map]
    exact List.map_congr_left hitem
  rw [serializeVector, serializeVector, h.map_append, h.map_WriteCompactSize, h.map_concat, hmap]

/-- The byte blocks read back every remaining byte of the vector, in order. -/
theorem readByteBlocks_run (nSize i : Nat) (v data rest : List UInt8)
    (h : data.length = nSize - i) :
    (readByteBlocks nSize i v).run (data ++ rest) = .ok (v ++ data, rest) := by
  induction i, v using readByteBlocks.induct nSize generalizing data with
  | case1 i v hi blk ih =>
    have hblk : blk ≤ data.length := by simp only [blk]; omega
    have hlen : (data.drop blk).length = nSize - (i + blk) := by
      simp only [List.length_drop]; omega
    rw [readByteBlocks, if_pos hi, ← List.take_append_drop blk data, List.append_assoc,
      StateT.run_bind, readBytes_run (by simp; omega), except_ok_bind, ih _ _ hlen,
      List.append_assoc, List.take_append_drop]
  | case2 i v hi =>
    have hd : data = [] := List.eq_nil_of_length_eq_zero (by omega)
    subst hd
    rw [readByteBlocks, if_neg hi]
    simp
    rfl

theorem unserializeBytes_reads :
    Reads unserializeBytes (serializeBytes CDataStream) (fun v => v.length ≤ MAX_SIZE) := by
  intro v rest hv
  rw [unserializeBytes, serializeBytes_CDataStream, List.append_assoc, ReadCompactSize_reads.run_bind hv,
    readByteBlocks_run _ 0 [] v rest (by omega)]
  rfl

/-- The element blocks read back every remaining element, in order. -/
theorem readElementBlocks_run {α : Type} {item : Reader α} {write : α → List UInt8}
    {ok : α → Prop} (hitem : Reads item write ok) (step nSize : Nat) (hstep : 0 < step)
    (nMid : Nat) (v xs : List α) (hxs : ∀ x ∈ xs, ok x) (h : xs.length = nSize - nMid)
    (rest : List UInt8) :
    (readElementBlocks item step nSize hstep nMid v).run (xs.flatMap write ++ rest) =
      .ok (v ++ xs, rest) := by
  induction nMid, v using readElementBlocks.induct step nSize hstep generalizing xs with
  | case1 nMid v hi nMid' ih =>
    have hk : min (nMid + step) nSize - nMid ≤ xs.length := by omega
    obtain ⟨ys, zs, rfl, hys⟩ : ∃ ys zs, xs = ys ++ zs ∧
        ys.length = min (nMid + step) nSize - nMid :=
      ⟨xs.take (min (nMid + step) nSize - nMid), xs.drop (min (nMid + step) nSize - nMid),
        (List.take_append_drop _ _).symm, by simp; omega⟩
    have hzs : zs.length = nSize - min (nMid + step) nSize := by
      simp only [List.length_append] at h; omega
    rw [readElementBlocks, if_pos hi, List.flatMap_append, List.append_assoc, StateT.run_bind, ← hys,
      readMany_flatMap hitem _ (fun x hx => hxs x (List.mem_append_left _ hx)), except_ok_bind,
      ih _ _ (fun x hx => hxs x (List.mem_append_right _ hx)) hzs, List.append_assoc]
  | case2 nMid v hi =>
    have hd : xs = [] := List.eq_nil_of_length_eq_zero (by omega)
    subst hd
    rw [readElementBlocks, if_neg hi]
    simp
    rfl

theorem unserializeVector_reads {α : Type} {item : Reader α} {write : α → List UInt8}
    {ok : α → Prop} (hitem : Reads item write ok) (step : Nat) (hstep : 0 < step) :
    Reads (unserializeVector item step hstep) (serializeVector CDataStream write)
      (fun v => v.length ≤ MAX_SIZE ∧ ∀ x ∈ v, ok x) := by
  intro v rest ⟨hlen, hv⟩
  rw [unserializeVector, serializeVector_CDataStream, List.append_assoc, ReadCompactSize_reads.run_bind hlen,
    readElementBlocks_run hitem step _ hstep 0 [] v hv (by omega)]
  rfl

end BitcoinPQ

import BitcoinPQ.Models.Encoding.ConvertBits

/-!
# Equihash indices and their minimal encoding

An Equihash solution lists `2 ^ K` indices of `cBitLen + 1` bits. In a block header it
is stored minimally: the indices' bits one after the other, cut into bytes
(`GetMinimalFromIndices`); `GetIndicesFromMinimal` reads them back. Both go through a
bit accumulator in `equihash.cpp`: `ExpandArray` reads bytes and writes each element of
`bit_len` bits as `out_width` bytes, big-endian, the first `byte_pad` of them zero;
`CompressArray` does the converse. Here every element is an `eh_index` of four bytes.

The accumulator `acc_value` is a `uint32_t`: shifting it left drops its high bits, which
the model writes as `% 2 ^ 32`; the masks then never read them. The asserts of the two
array functions, `bit_len >= 8` and `7 + bit_len <= 32`, are the hypotheses of the
results. The indices are natural numbers: below `2 ^ (cBitLen + 1)`, an `eh_index` holds
them unchanged.

`ExpandArray` keeps the `Regrouped` invariant of `ConvertBits` (bytes in, elements out);
`CompressArray` keeps `Compressed` (elements in, bytes out). Both say that what was
written, followed by the low `acc_bits` bits of the accumulator, spells the input read.
The round trip `GetIndicesFromMinimal_GetMinimalFromIndices` follows, as for bech32, from
the two values being equal and the digit lists having equal lengths.
-/

namespace BitcoinPQ

open Digits

/-! ## The model -/

/-- The instances `equihash.h` declares, as `(N, K)`. -/
def EquihashInstances : List (ℕ × ℕ) :=
  [(96, 3), (200, 9), (96, 5), (48, 5), (176, 7), (144, 5), (168, 7)]

/-- `CollisionBitLength = N / (K + 1)`. -/
def CollisionBitLength (N K : ℕ) : ℕ := N / (K + 1)

/-- `ExpandArray`'s two inner loops for one element: `byte_pad` zero bytes, then
big-endian the bytes of the `bit_len` bits above the low `acc_bits` of `acc_value`, each
masked with its byte of `bit_len_mask`. -/
def expandElement (bit_len byte_pad out_width acc_value acc_bits : ℕ) : List UInt8 :=
  (List.range out_width).map fun x =>
    if x < byte_pad then 0
    else UInt8.ofNat ((acc_value >>> (acc_bits + 8 * (out_width - x - 1))) &&&
      ((((1 <<< bit_len) - 1) >>> (8 * (out_width - x - 1))) &&& 0xFF))

/-- The loop of `ExpandArray` over the input bytes, from an accumulator holding
`acc_bits` bits: the bytes it writes, in order. -/
def expandLoop (bit_len byte_pad out_width : ℕ) : (acc_bits acc_value : ℕ) → List UInt8 → List UInt8
  | _, _, [] => []
  | acc_bits, acc_value, b :: bs =>
    let acc_value := (acc_value <<< 8) % 2 ^ 32 ||| b.toNat
    let acc_bits := acc_bits + 8
    if acc_bits ≥ bit_len then
      expandElement bit_len byte_pad out_width acc_value (acc_bits - bit_len) ++
        expandLoop bit_len byte_pad out_width (acc_bits - bit_len) acc_value bs
    else expandLoop bit_len byte_pad out_width acc_bits acc_value bs

/-- `ExpandArray(in, in_len, out, out_len, bit_len, byte_pad)` on the buffer `out`: the
bytes written from its start, and the rest of `out` as it was. -/
def ExpandArray (inp out : List UInt8) (bit_len byte_pad : ℕ) : List UInt8 :=
  let written := expandLoop bit_len byte_pad ((bit_len + 7) / 8 + byte_pad) 0 0 inp
  written ++ out.drop written.length

/-- One element read by `CompressArray`: the accumulator moved up by `bit_len` bits,
then the masked bytes `byte_pad ..< in_width` of the element at the front of `rest`
or'd in below, big-endian. -/
def compressElement (bit_len byte_pad in_width acc_value : ℕ) (rest : List UInt8) : ℕ :=
  (List.range' byte_pad (in_width - byte_pad)).foldl
    (fun acc x => acc ||| (((rest.getD x 0).toNat &&&
      ((((1 <<< bit_len) - 1) >>> (8 * (in_width - x - 1))) &&& 0xFF)) <<< (8 * (in_width - x - 1))))
    ((acc_value <<< bit_len) % 2 ^ 32)

/-- The loop of `CompressArray` over the `fuel` output bytes still to write; `rest` is
the input from the next element on. -/
def compressLoop (bit_len byte_pad in_width : ℕ) : (fuel acc_bits acc_value : ℕ) → List UInt8 → List UInt8
  | 0, _, _, _ => []
  | fuel + 1, acc_bits, acc_value, rest =>
    if acc_bits < 8 then
      let acc_value := compressElement bit_len byte_pad in_width acc_value rest
      let acc_bits := acc_bits + bit_len - 8
      UInt8.ofNat ((acc_value >>> acc_bits) &&& 0xFF) ::
        compressLoop bit_len byte_pad in_width fuel acc_bits acc_value (rest.drop in_width)
    else
      UInt8.ofNat ((acc_value >>> (acc_bits - 8)) &&& 0xFF) ::
        compressLoop bit_len byte_pad in_width fuel (acc_bits - 8) acc_value rest

/-- `CompressArray(in, in_len, out, out_len, bit_len, byte_pad)`: the `out_len` bytes it
writes. -/
def CompressArray (inp : List UInt8) (out_len bit_len byte_pad : ℕ) : List UInt8 :=
  compressLoop bit_len byte_pad ((bit_len + 7) / 8 + byte_pad) out_len 0 0 inp

/-- `EhIndexToArray`: the index as four bytes, big-endian. -/
def EhIndexToArray (i : ℕ) : List UInt8 :=
  [UInt8.ofNat (i >>> 24), UInt8.ofNat (i >>> 16), UInt8.ofNat (i >>> 8), UInt8.ofNat i]

/-- `ArrayToEhIndex`: the four bytes at the front of `array`, big-endian. -/
def ArrayToEhIndex (array : List UInt8) : ℕ :=
  beValue 256 [(array.getD 0 0).toNat, (array.getD 1 0).toNat, (array.getD 2 0).toNat, (array.getD 3 0).toNat]

/-- `GetIndicesFromMinimal`: the minimal encoding expanded into a zeroed array of
`eh_index` slots, then an index read every four bytes. -/
def GetIndicesFromMinimal (minimal : List UInt8) (cBitLen : ℕ) : List ℕ :=
  let lenIndices := 8 * 4 * minimal.length / (cBitLen + 1)
  let bytePad := 4 - ((cBitLen + 1) + 7) / 8
  let array := ExpandArray minimal (List.replicate lenIndices 0) (cBitLen + 1) bytePad
  (List.range' 0 ((lenIndices + 3) / 4) 4).map fun i => ArrayToEhIndex (array.drop i)

/-- `GetMinimalFromIndices`: the indices written as four bytes each, then compressed. -/
def GetMinimalFromIndices (indices : List ℕ) (cBitLen : ℕ) : List UInt8 :=
  let lenIndices := indices.length * 4
  let minLen := (cBitLen + 1) * lenIndices / (8 * 4)
  let bytePad := 4 - ((cBitLen + 1) + 7) / 8
  CompressArray (indices.flatMap EhIndexToArray) minLen (cBitLen + 1) bytePad

/-- Every instance meets the asserts of `ExpandArray` and `CompressArray`. -/
theorem CollisionBitLength_asserts :
    ∀ p ∈ EquihashInstances,
      8 ≤ CollisionBitLength p.1 p.2 + 1 ∧ 7 + (CollisionBitLength p.1 p.2 + 1) ≤ 32 := by
  decide

/-! ## Elements as bytes -/

/-- The `n` bytes of `v`, big-endian: what `ExpandArray` writes for an element. -/
def beBytes (n v : ℕ) : List UInt8 :=
  (List.range n).map fun x => UInt8.ofNat (v / 2 ^ (8 * (n - x - 1)))

theorem length_beBytes (n v : ℕ) : (beBytes n v).length = n := by
  simp [beBytes]

theorem beBytes_getD {n x : ℕ} (hx : x < n) (v : ℕ) (t : List UInt8) :
    (beBytes n v ++ t).getD x 0 = UInt8.ofNat (v / 2 ^ (8 * (n - x - 1))) := by
  have hlen : x < (beBytes n v).length := by rw [length_beBytes]; exact hx
  rw [List.getD_eq_getElem?_getD, List.getElem?_append_left hlen, List.getElem?_eq_getElem hlen]
  simp [beBytes]

theorem EhIndexToArray_eq (i : ℕ) : EhIndexToArray i = beBytes 4 i := by
  simp [EhIndexToArray, beBytes, List.range_succ, Nat.shiftRight_eq_div_pow]

theorem ArrayToEhIndex_beBytes (v : ℕ) (tail : List UInt8) :
    ArrayToEhIndex (beBytes 4 v ++ tail) = v % 2 ^ 32 := by
  rw [ArrayToEhIndex, beBytes_getD (by norm_num), beBytes_getD (by norm_num), beBytes_getD (by norm_num),
    beBytes_getD (by norm_num)]
  simp only [UInt8.toNat_ofNat', beValue_cons, beValue_nil, List.length_cons, List.length_nil]
  norm_num
  omega

/-- The byte written from the accumulator: its eight bits above `acc_bits`. -/
theorem toNat_ofNat_shiftRight_and (acc_value acc_bits : ℕ) :
    (UInt8.ofNat ((acc_value >>> acc_bits) &&& 0xFF)).toNat = acc_value / 2 ^ acc_bits % 2 ^ 8 := by
  rw [show (0xFF : ℕ) = 2 ^ 8 - 1 from rfl, Nat.and_two_pow_sub_one_eq_mod, Nat.shiftRight_eq_div_pow,
    UInt8.toNat_ofNat', Nat.mod_mod]

section Element

variable {bit_len byte_pad width : ℕ}

/-- An element of `bit_len` bits written as `width = ⌈bit_len / 8⌉ + byte_pad` bytes. -/
theorem expandElement_eq (hw : width = (bit_len + 7) / 8 + byte_pad) (acc_value acc_bits : ℕ) :
    expandElement bit_len byte_pad width acc_value acc_bits =
      beBytes width (acc_value / 2 ^ acc_bits % 2 ^ bit_len) := by
  unfold expandElement beBytes
  apply List.map_congr_left
  intro x hx
  rw [List.mem_range] at hx
  split
  case isTrue hpad =>
    -- the padding bytes lie above the element's bits
    have hle : 2 ^ bit_len ≤ 2 ^ (8 * (width - x - 1)) := Nat.pow_le_pow_right (by norm_num) (by omega)
    have hlt : acc_value / 2 ^ acc_bits % 2 ^ bit_len < 2 ^ (8 * (width - x - 1)) :=
      lt_of_lt_of_le (Nat.mod_lt _ (by positivity)) hle
    rw [Nat.div_eq_of_lt hlt]
    rfl
  case isFalse hpad =>
    rw [Nat.shiftRight_add, Nat.one_shiftLeft, shiftRight_and_mask_byte, Nat.shiftRight_eq_div_pow,
      UInt8.ofNat_mod_size]

/-- The masked bytes `s ..< width` of an element's bytes, or'd in at their places, give
its low `8 * (width - s)` bits. -/
theorem foldl_compressElement (hw : width = (bit_len + 7) / 8 + byte_pad) (v : ℕ) (tail : List UInt8) :
    ∀ (n s A : ℕ), s + n = width →
      (List.range' s n).foldl
        (fun acc x => acc ||| ((((beBytes width v ++ tail).getD x 0).toNat &&&
          ((((1 <<< bit_len) - 1) >>> (8 * (width - x - 1))) &&& 0xFF)) <<< (8 * (width - x - 1)))) A =
        A ||| v % 2 ^ bit_len % 2 ^ (8 * n)
  | 0, s, A, _ => by rw [List.range'_zero, List.foldl_nil, Nat.mul_zero, pow_zero, Nat.mod_one, Nat.or_zero]
  | n + 1, s, A, hs => by
    have hk : width - s - 1 = n := by omega
    rw [List.range'_succ, List.foldl_cons, foldl_compressElement hw v tail n (s + 1) _ (by omega),
      beBytes_getD (by omega), hk, UInt8.toNat_ofNat', show (2 : ℕ) ^ 8 = 256 from rfl, Nat.one_shiftLeft,
      byte_and_mask_byte, Nat.or_assoc]
    -- the byte sits right above the bits already or'd in
    have hlow : v % 2 ^ bit_len % 2 ^ (8 * n) < 2 ^ (8 * n) := Nat.mod_lt _ (by positivity)
    rw [mul_two_pow_or_of_lt _ hlow, show 8 * (n + 1) = 8 * n + 8 by ring, mod_two_pow_add _ (8 * n) 8]
    rfl

/-- An element of `width` bytes read into the accumulator below its old bits. -/
theorem compressElement_eq (hw : width = (bit_len + 7) / 8 + byte_pad) (acc_value v : ℕ)
    (tail : List UInt8) :
    compressElement bit_len byte_pad width acc_value (beBytes width v ++ tail) =
      (acc_value <<< bit_len) % 2 ^ 32 ||| v % 2 ^ bit_len := by
  have hle : 2 ^ bit_len ≤ 2 ^ (8 * (width - byte_pad)) := Nat.pow_le_pow_right (by norm_num) (by omega)
  rw [compressElement, foldl_compressElement hw v tail (width - byte_pad) byte_pad _ (by omega),
    Nat.mod_eq_of_lt (lt_of_lt_of_le (Nat.mod_lt _ (by positivity)) hle)]

end Element

/-! ## ExpandArray -/

section Expand

variable {bit_len : ℕ}

/-- A byte read into an accumulator holding fewer than `bit_len ≤ 25` bits, before an
element is taken out. -/
theorem Regrouped.push_byte {input new : List ℕ} {acc_value acc_bits : ℕ}
    (h : Regrouped 8 bit_len input new acc_value acc_bits) (h32 : 7 + bit_len ≤ 32) (b : UInt8) :
    beValue (2 ^ bit_len) new * 2 ^ (acc_bits + 8) +
        ((acc_value <<< 8) % 2 ^ 32 ||| b.toNat) % 2 ^ (acc_bits + 8) =
      beValue (2 ^ 8) (input ++ [b.toNat]) := by
  have hbits := h.bits_lt
  rw [shiftLeft_mod_or_mod b.toNat_lt (by omega), beValue_append_singleton, ← h.value, pow_add]
  ring

/-- With `bit_len` bits or more held, the element above the low `acc_bits + 8 - bit_len`
is written. -/
theorem Regrouped.expand {input new : List ℕ} {acc_value acc_bits : ℕ}
    (h : Regrouped 8 bit_len input new acc_value acc_bits) (h8 : 8 ≤ bit_len) (h32 : 7 + bit_len ≤ 32)
    (b : UInt8) (hfull : acc_bits + 8 ≥ bit_len) :
    Regrouped 8 bit_len (input ++ [b.toNat])
      (new ++ [((acc_value <<< 8) % 2 ^ 32 ||| b.toNat) / 2 ^ (acc_bits + 8 - bit_len) % 2 ^ bit_len])
      ((acc_value <<< 8) % 2 ^ 32 ||| b.toNat) (acc_bits + 8 - bit_len) := by
  have hbits := h.bits_lt
  have hlen := h.length
  refine ⟨by omega, ?_, ?_, ?_⟩
  · simp only [List.length_append, List.length_singleton, add_mul, one_mul]
    omega
  · intro g hg
    rcases List.mem_append.mp hg with hg | hg
    · exact h.lt g hg
    · rw [List.mem_singleton.mp hg]
      exact Nat.mod_lt _ (by positivity)
  · rw [beValue_append_div_mod, Nat.sub_add_cancel hfull, h.push_byte h32 b]

/-- With fewer than `bit_len` bits held, the byte only joins the accumulator. -/
theorem Regrouped.keep {input new : List ℕ} {acc_value acc_bits : ℕ}
    (h : Regrouped 8 bit_len input new acc_value acc_bits) (h32 : 7 + bit_len ≤ 32) (b : UInt8)
    (hshort : acc_bits + 8 < bit_len) :
    Regrouped 8 bit_len (input ++ [b.toNat]) new ((acc_value <<< 8) % 2 ^ 32 ||| b.toNat) (acc_bits + 8) := by
  have hlen := h.length
  refine ⟨hshort, ?_, h.lt, h.push_byte h32 b⟩
  simp only [List.length_append, List.length_singleton, add_mul, one_mul]
  omega

/-- `ExpandArray`'s loop writes the bytes of the elements that the input regroups into. -/
theorem expandLoop_spec {byte_pad out_width : ℕ} (hw : out_width = (bit_len + 7) / 8 + byte_pad)
    (h8 : 8 ≤ bit_len) (h32 : 7 + bit_len ≤ 32) :
    ∀ (bs : List UInt8) (input new : List ℕ) (acc_value acc_bits : ℕ),
      Regrouped 8 bit_len input new acc_value acc_bits →
      ∃ new' acc' bits', expandLoop bit_len byte_pad out_width acc_bits acc_value bs =
          new'.flatMap (beBytes out_width) ∧
        Regrouped 8 bit_len (input ++ bs.map UInt8.toNat) (new ++ new') acc' bits'
  | [], input, new, acc_value, acc_bits, h => ⟨[], acc_value, acc_bits, rfl, by simpa using h⟩
  | b :: bs, input, new, acc_value, acc_bits, h => by
    rw [expandLoop]
    split
    case isTrue hfull =>
      -- an element is complete: it is written, and the loop goes on with the bits below it
      obtain ⟨new', acc', bits', hloop, h'⟩ := expandLoop_spec hw h8 h32 bs _ _ _ _ (h.expand h8 h32 b hfull)
      refine ⟨((acc_value <<< 8) % 2 ^ 32 ||| b.toNat) / 2 ^ (acc_bits + 8 - bit_len) % 2 ^ bit_len :: new',
        acc', bits', ?_, ?_⟩
      · rw [hloop, List.flatMap_cons, expandElement_eq hw]
      · simpa using h'
    case isFalse hshort =>
      obtain ⟨new', acc', bits', hloop, h'⟩ :=
        expandLoop_spec hw h8 h32 bs _ _ _ _ (h.keep h32 b (by omega))
      exact ⟨new', acc', bits', hloop, by simpa using h'⟩

end Expand

/-! ## CompressArray -/

/-- `CompressArray`'s loop invariant: the bytes written, then the low `acc_bits` bits of
`acc_value`, spell the `bit_len`-bit elements read. -/
structure Compressed (bit_len : ℕ) (read : List ℕ) (out : List UInt8) (acc_value acc_bits : ℕ) : Prop where
  bits_lt : acc_bits < bit_len
  length : out.length * 8 + acc_bits = read.length * bit_len
  value : beValue (2 ^ 8) (out.map UInt8.toNat) * 2 ^ acc_bits + acc_value % 2 ^ acc_bits =
    beValue (2 ^ bit_len) read

section Compress

variable {bit_len byte_pad in_width : ℕ}

theorem Compressed.nil (h8 : 8 ≤ bit_len) : Compressed bit_len [] [] 0 0 :=
  ⟨by omega, by simp, by simp⟩

/-- A byte is written from the accumulator while it holds eight bits or more. -/
theorem Compressed.emit {read : List ℕ} {out : List UInt8} {acc_value acc_bits : ℕ}
    (h : Compressed bit_len read out acc_value acc_bits) (h8 : 8 ≤ acc_bits) :
    Compressed bit_len read (out ++ [UInt8.ofNat ((acc_value >>> (acc_bits - 8)) &&& 0xFF)])
      acc_value (acc_bits - 8) := by
  have hlen := h.length
  have hbits := h.bits_lt
  refine ⟨by omega, ?_, ?_⟩
  · rw [List.length_append, List.length_singleton, add_mul, one_mul]
    omega
  · rw [List.map_append, List.map_singleton, toNat_ofNat_shiftRight_and, beValue_append_div_mod,
      Nat.sub_add_cancel h8, h.value]

/-- With fewer than eight bits held, an element is read below them and a byte written. -/
theorem Compressed.read {read : List ℕ} {out : List UInt8} {acc_value acc_bits : ℕ}
    (h : Compressed bit_len read out acc_value acc_bits) (h8 : 8 ≤ bit_len) (h32 : 7 + bit_len ≤ 32)
    (hlow : acc_bits < 8) {v : ℕ} (hv : v < 2 ^ bit_len) :
    Compressed bit_len (read ++ [v])
      (out ++ [UInt8.ofNat ((((acc_value <<< bit_len) % 2 ^ 32 ||| v) >>> (acc_bits + bit_len - 8)) &&& 0xFF)])
      ((acc_value <<< bit_len) % 2 ^ 32 ||| v) (acc_bits + bit_len - 8) := by
  have hlen := h.length
  refine ⟨by omega, ?_, ?_⟩
  · simp only [List.length_append, List.length_singleton, add_mul, one_mul]
    omega
  · rw [List.map_append, List.map_singleton, toNat_ofNat_shiftRight_and, beValue_append_div_mod,
      show acc_bits + bit_len - 8 + 8 = acc_bits + bit_len by omega,
      shiftLeft_mod_or_mod hv (by omega), beValue_append_singleton, ← h.value, pow_add]
    ring

/-- `CompressArray`'s loop over `fuel` bytes, with at least `8 * fuel` bits held or still
to read, writes `fuel` bytes and reads a prefix of the elements. -/
theorem compressLoop_spec (hw : in_width = (bit_len + 7) / 8 + byte_pad) (h8 : 8 ≤ bit_len)
    (h32 : 7 + bit_len ≤ 32) :
    ∀ (fuel : ℕ) (rest read : List ℕ) (out : List UInt8) (acc_value acc_bits : ℕ),
      Compressed bit_len read out acc_value acc_bits → (∀ v ∈ rest, v < 2 ^ bit_len) →
      fuel * 8 ≤ acc_bits + rest.length * bit_len →
      ∃ k acc' bits', k ≤ rest.length ∧
        (compressLoop bit_len byte_pad in_width fuel acc_bits acc_value
          (rest.flatMap (beBytes in_width))).length = fuel ∧
        Compressed bit_len (read ++ rest.take k)
          (out ++ compressLoop bit_len byte_pad in_width fuel acc_bits acc_value (rest.flatMap (beBytes in_width)))
          acc' bits'
  | 0, rest, read, out, acc_value, acc_bits, h, _, _ =>
    ⟨0, acc_value, acc_bits, Nat.zero_le _, rfl, by simpa [compressLoop] using h⟩
  | fuel + 1, rest, read, out, acc_value, acc_bits, h, hrest, hfuel => by
    rw [compressLoop]
    split
    case isTrue hlow =>
      -- fewer than eight bits held: the next element is read, so there is one
      obtain ⟨v, rest', rfl⟩ : ∃ v rest', rest = v :: rest' := by
        cases rest with
        | nil => simp at hfuel; omega
        | cons v rest' => exact ⟨v, rest', rfl⟩
      have hv := hrest v List.mem_cons_self
      have hrest' : ∀ u ∈ rest', u < 2 ^ bit_len := fun u hu => hrest u (List.mem_cons_of_mem v hu)
      rw [List.flatMap_cons, compressElement_eq hw, Nat.mod_eq_of_lt hv,
        List.drop_left' (length_beBytes in_width v)]
      obtain ⟨k, acc', bits', hk, hlen, h'⟩ := compressLoop_spec hw h8 h32 fuel rest' _ _ _ _
        (h.read h8 h32 hlow hv) hrest' (by simp only [List.length_cons, add_mul, one_mul] at hfuel; omega)
      refine ⟨k + 1, acc', bits', by simp only [List.length_cons]; omega, by rw [List.length_cons, hlen], ?_⟩
      simpa [List.take_succ_cons] using h'
    case isFalse hhigh =>
      obtain ⟨k, acc', bits', hk, hlen, h'⟩ := compressLoop_spec hw h8 h32 fuel rest _ _ _ _
        (h.emit (by omega)) hrest (by omega)
      exact ⟨k, acc', bits', hk, by rw [List.length_cons, hlen], by simpa using h'⟩

end Compress

/-! ## The two conversions -/

/-- Reading an index every four bytes from where four-byte elements start. -/
theorem map_ArrayToEhIndex_drop :
    ∀ (gs : List ℕ) (buf : List UInt8) (s : ℕ), buf.drop s = gs.flatMap (beBytes 4) →
      (List.range' s gs.length 4).map (fun i => ArrayToEhIndex (buf.drop i)) = gs.map (· % 2 ^ 32)
  | [], _, _, _ => rfl
  | g :: gs, buf, s, h => by
    have hnext : buf.drop (s + 4) = gs.flatMap (beBytes 4) := by
      rw [← List.drop_drop, h, List.flatMap_cons, List.drop_left' (length_beBytes 4 g)]
    rw [List.length_cons, List.range'_succ, List.map_cons, List.map_cons, h, List.flatMap_cons,
      ArrayToEhIndex_beBytes, map_ArrayToEhIndex_drop gs buf (s + 4) hnext]

section Indices

variable {cBitLen : ℕ}

/-- A minimal encoding of whole indices gives indices of `cBitLen + 1` bits that denote
its bits. -/
theorem GetIndicesFromMinimal_spec (h8 : 8 ≤ cBitLen + 1) (h32 : 7 + (cBitLen + 1) ≤ 32)
    (minimal : List UInt8) (hdvd : 8 * minimal.length % (cBitLen + 1) = 0) :
    (GetIndicesFromMinimal minimal cBitLen).length * (cBitLen + 1) = 8 * minimal.length ∧
      (∀ i ∈ GetIndicesFromMinimal minimal cBitLen, i < 2 ^ (cBitLen + 1)) ∧
      beValue (2 ^ (cBitLen + 1)) (GetIndicesFromMinimal minimal cBitLen) =
        beValue (2 ^ 8) (minimal.map UInt8.toNat) := by
  have hw : 4 = (cBitLen + 1 + 7) / 8 + (4 - (cBitLen + 1 + 7) / 8) := by omega
  obtain ⟨groups, acc, bits, hloop, h⟩ :=
    expandLoop_spec hw h8 h32 minimal [] [] 0 0 (Regrouped.nil (by omega))
  rw [List.nil_append, List.nil_append] at h
  have hlen := h.length
  rw [List.length_map] at hlen
  -- the whole input makes whole elements: no bit is left over
  have hbits : bits = 0 := by
    have hmod : (groups.length * (cBitLen + 1) + bits) % (cBitLen + 1) = bits := by
      rw [Nat.mul_add_mod_self_right, Nat.mod_eq_of_lt h.bits_lt]
    rw [hlen, Nat.mul_comm] at hmod
    omega
  subst hbits
  rw [Nat.add_zero] at hlen
  have hlenIndices : 8 * 4 * minimal.length / (cBitLen + 1) = 4 * groups.length := by
    rw [show 8 * 4 * minimal.length = 4 * groups.length * (cBitLen + 1) by linarith [hlen],
      Nat.mul_div_cancel _ (by omega)]
  have hwritten : (groups.flatMap (beBytes 4)).length = 4 * groups.length := by
    simp [List.length_flatMap, length_beBytes, Nat.mul_comm]
  have hget : GetIndicesFromMinimal minimal cBitLen = groups := by
    rw [GetIndicesFromMinimal]
    simp only [ExpandArray, hlenIndices, ← hw, hloop, hwritten, List.drop_replicate, Nat.sub_self,
      List.replicate_zero, List.append_nil]
    rw [show (4 * groups.length + 3) / 4 = groups.length by omega,
      map_ArrayToEhIndex_drop groups _ 0 List.drop_zero]
    -- every element fits in an `eh_index`
    have hsmall : ∀ g ∈ groups, g % 2 ^ 32 = g := fun g hg =>
      Nat.mod_eq_of_lt (lt_of_lt_of_le (h.lt g hg) (Nat.pow_le_pow_right (by norm_num) (by omega)))
    rw [List.map_congr_left hsmall, List.map_id']
  have hvalue := h.value
  rw [pow_zero, Nat.mul_one, Nat.mod_one, Nat.add_zero] at hvalue
  rw [hget]
  exact ⟨by rw [hlen, Nat.mul_comm], h.lt, hvalue⟩

/-- Indices of `cBitLen + 1` bits filling whole bytes give a minimal encoding of their
bits. -/
theorem GetMinimalFromIndices_spec (h8 : 8 ≤ cBitLen + 1) (h32 : 7 + (cBitLen + 1) ≤ 32)
    (indices : List ℕ) (hlt : ∀ i ∈ indices, i < 2 ^ (cBitLen + 1))
    (hdvd : (cBitLen + 1) * indices.length % 8 = 0) :
    (GetMinimalFromIndices indices cBitLen).length * 8 = (cBitLen + 1) * indices.length ∧
      beValue (2 ^ 8) ((GetMinimalFromIndices indices cBitLen).map UInt8.toNat) =
        beValue (2 ^ (cBitLen + 1)) indices := by
  have hw : 4 = (cBitLen + 1 + 7) / 8 + (4 - (cBitLen + 1 + 7) / 8) := by omega
  have hminLen : (cBitLen + 1) * (indices.length * 4) / (8 * 4) * 8 = (cBitLen + 1) * indices.length := by
    rw [← Nat.mul_assoc, Nat.mul_div_mul_right _ _ (by norm_num)]
    exact Nat.div_mul_cancel (Nat.dvd_of_mod_eq_zero hdvd)
  have harray : indices.flatMap EhIndexToArray = indices.flatMap (beBytes 4) := by
    rw [show EhIndexToArray = beBytes 4 from funext EhIndexToArray_eq]
  obtain ⟨k, acc, bits, hk, hlen, h⟩ := compressLoop_spec hw h8 h32
    ((cBitLen + 1) * (indices.length * 4) / (8 * 4)) indices [] [] 0 0 (Compressed.nil h8) hlt
    (by rw [hminLen, Nat.mul_comm]; omega)
  have hcompress : GetMinimalFromIndices indices cBitLen =
      compressLoop (cBitLen + 1) (4 - (cBitLen + 1 + 7) / 8) 4
        ((cBitLen + 1) * (indices.length * 4) / (8 * 4)) 0 0 (indices.flatMap (beBytes 4)) := by
    rw [GetMinimalFromIndices, CompressArray, harray, ← hw]
  rw [← hcompress] at hlen h
  rw [List.nil_append, List.nil_append] at h
  -- the bytes written take up all the elements, with no bit left over
  have hbound := h.length
  rw [List.length_take_of_le hk, hlen, hminLen] at hbound
  have hk_eq : k = indices.length := by
    have hle : indices.length * (cBitLen + 1) ≤ k * (cBitLen + 1) := by rw [Nat.mul_comm]; omega
    have hlt : k * (cBitLen + 1) < (indices.length + 1) * (cBitLen + 1) := by
      rw [add_mul, one_mul, Nat.mul_comm indices.length]
      have := h.bits_lt
      omega
    have h1 := Nat.le_of_mul_le_mul_right hle (by omega)
    have h2 := Nat.lt_of_mul_lt_mul_right hlt
    omega
  subst hk_eq
  have hbits : bits = 0 := by
    rw [Nat.mul_comm] at hbound
    omega
  subst hbits
  have hvalue := h.value
  rw [List.take_length, pow_zero, Nat.mul_one, Nat.mod_one, Nat.add_zero] at hvalue
  exact ⟨by rw [hlen, hminLen], hvalue⟩

end Indices

/-- The two conversions between indices of `cBitLen + 1` bits and their minimal encoding
undo each other, for every bit length that `ExpandArray` and `CompressArray` accept
(`CollisionBitLength_asserts`: those of every instance). -/
theorem GetIndicesFromMinimal_GetMinimalFromIndices {cBitLen : ℕ} (h8 : 8 ≤ cBitLen + 1)
    (h32 : 7 + (cBitLen + 1) ≤ 32) :
    (∀ indices : List ℕ, (∀ i ∈ indices, i < 2 ^ (cBitLen + 1)) → (cBitLen + 1) * indices.length % 8 = 0 →
      GetIndicesFromMinimal (GetMinimalFromIndices indices cBitLen) cBitLen = indices) ∧
    ∀ minimal : List UInt8, 8 * minimal.length % (cBitLen + 1) = 0 →
      GetMinimalFromIndices (GetIndicesFromMinimal minimal cBitLen) cBitLen = minimal := by
  constructor
  · intro indices hlt hdvd
    obtain ⟨hmlen, hmvalue⟩ := GetMinimalFromIndices_spec h8 h32 indices hlt hdvd
    set minimal := GetMinimalFromIndices indices cBitLen
    obtain ⟨hilen, hilt, hivalue⟩ := GetIndicesFromMinimal_spec h8 h32 minimal
      (by rw [Nat.mul_comm, hmlen, Nat.mul_comm, Nat.mul_mod_left])
    -- as many indices come back, denoting the same number
    have hlen : (GetIndicesFromMinimal minimal cBitLen).length = indices.length := by
      apply Nat.eq_of_mul_eq_mul_right (show 0 < cBitLen + 1 by omega)
      rw [hilen, Nat.mul_comm 8, hmlen, Nat.mul_comm]
    exact beValue_inj (Nat.one_lt_two_pow (by omega)) hlen hilt hlt (by rw [hivalue, hmvalue])
  · intro minimal hdvd
    obtain ⟨hilen, hilt, hivalue⟩ := GetIndicesFromMinimal_spec h8 h32 minimal hdvd
    set indices := GetIndicesFromMinimal minimal cBitLen
    obtain ⟨hmlen, hmvalue⟩ := GetMinimalFromIndices_spec h8 h32 indices hilt
      (by rw [Nat.mul_comm, hilen, Nat.mul_comm, Nat.mul_mod_left])
    -- as many bytes come back, denoting the same number
    have hlen : (GetMinimalFromIndices indices cBitLen).length = minimal.length := by
      apply Nat.eq_of_mul_eq_mul_right (show 0 < 8 by norm_num)
      rw [hmlen, Nat.mul_comm, hilen, Nat.mul_comm]
    have hbytes : ∀ l : List UInt8, ∀ x ∈ l.map UInt8.toNat, x < 2 ^ 8 := by
      intro l x hx
      obtain ⟨b, -, rfl⟩ := List.mem_map.mp hx
      exact b.toNat_lt
    have hmap : (GetMinimalFromIndices indices cBitLen).map UInt8.toNat = minimal.map UInt8.toNat :=
      beValue_inj (by norm_num) (by rw [List.length_map, List.length_map, hlen])
        (hbytes _) (hbytes _) (by rw [hmvalue, hivalue])
    exact List.map_injective_iff.mpr (fun a b hab => UInt8.toNat_inj.mp hab) hmap

theorem GetIndicesFromMinimal_GetMinimalFromIndices_200_9 :
    8 ≤ 20 + 1 ∧ 7 + (20 + 1) ≤ 32 ∧
      GetIndicesFromMinimal (GetMinimalFromIndices [0, 1, 2, 3, 1048576, 5, 6, 2097151] 20) 20 =
        [0, 1, 2, 3, 1048576, 5, 6, 2097151] := by
  -- `(200, 9)` is an instance, whose collision length meets the asserts
  obtain ⟨h8, h32⟩ := CollisionBitLength_asserts (200, 9) (by decide)
  exact ⟨h8, h32, (GetIndicesFromMinimal_GetMinimalFromIndices h8 h32).1 _ (by decide) (by decide)⟩

end BitcoinPQ

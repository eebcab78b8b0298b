import BitcoinPQ.Models.Serialize.Stream

/-!
# VARINT

`WriteVarInt` and `ReadVarInt` of `serialize.h`: a number in groups of seven bits, the
most significant first, every byte but the last with its high bit set. Each group but
the lowest is stored less one, so that every number has one encoding. `ReadVarInt`
reads into an unsigned type whose largest value is `maxI` (all ones), and throws
rather than overflow it. Every value of the type reads back from its `VARINT`, of
`GetSizeOfVarInt` bytes, and every accepted byte string is the `VARINT` of what it
reads as, so the encoding is one-to-one onto the accepted strings.
-/

namespace BitcoinPQ

open Wire

/-- `std::numeric_limits<int>::max()`. -/
def INT_MAX : Nat := 2 ^ 31 - 1

/-- `std::numeric_limits<unsigned int>::max()`. -/
def UINT_MAX : Nat := 2 ^ 32 - 1

/-- `std::numeric_limits<uint64_t>::max()`. -/
def UINT64_MAX : Nat := 2 ^ 64 - 1

/-- The bytes of `WriteVarInt` for `n`: `tmp[len]` down to `tmp[0]`. `more` is the
`len ? 0x80 : 0x00` of the group, set on all but the lowest. -/
def varIntBytes (n : Nat) (more : Bool) : List UInt8 :=
  (if n ≤ 0x7F then [] else varIntBytes (n / 128 - 1) true) ++
    [UInt8.ofNat (n % 128 + if more then 0x80 else 0)]
termination_by n
decreasing_by omega

/-- `WriteVarInt`. -/
def WriteVarInt (n : Nat) : List UInt8 := varIntBytes n false

/-- The loop of `ReadVarInt`, with `n` read so far. `(n << 7) | (chData & 0x7F)` is
`n * 128 + chData % 128`, since `n ≤ maxI >> 7` keeps it within the type. -/
def readVarIntLoop (maxI n : Nat) : List UInt8 → Except String (Nat × List UInt8)
  | [] => .error "CDataStream::read(): end of data"
  | chData :: s =>
    if n > maxI / 128 then .error "ReadVarInt(): size too large"
    else
      let n := n * 128 + chData.toNat % 128
      if chData.toNat ≥ 0x80 then
        if n = maxI then .error "ReadVarInt(): size too large" else readVarIntLoop maxI (n + 1) s
      else .ok (n, s)

/-- `ReadVarInt` into a type whose largest value is `maxI`. -/
def ReadVarInt (maxI : Nat) : Reader Nat := fun s => readVarIntLoop maxI 0 s

theorem toNat_varIntByte (n : Nat) (more : Bool) :
    (UInt8.ofNat (n % 128 + if more then 0x80 else 0)).toNat = n % 128 + if more then 0x80 else 0 := by
  rw [UInt8.toNat_ofNat']
  cases more <;> simp <;> omega

/-- Reading the groups of `m` from nothing read so far: `m` when it is the last, and
otherwise `m + 1` carried into the next group. -/
theorem readVarIntLoop_varIntBytes (maxI : Nat) :
    ∀ (m : Nat) (more : Bool) (rest : List UInt8), m ≤ maxI →
      readVarIntLoop maxI 0 (varIntBytes m more ++ rest) =
        if more then (if m = maxI then .error "ReadVarInt(): size too large"
          else readVarIntLoop maxI (m + 1) rest)
        else .ok (m, rest) := by
  intro m
  induction m using Nat.strongRecOn with
  | ind m ih =>
    intro more rest hm
    have hb := toNat_varIntByte m more
    -- the groups above the lowest leave `m / 128` read
    have hhigh : readVarIntLoop maxI 0 (varIntBytes m more ++ rest) =
        readVarIntLoop maxI (m / 128) (UInt8.ofNat (m % 128 + if more then 0x80 else 0) :: rest) := by
      rw [varIntBytes]
      by_cases hsmall : m ≤ 0x7F
      · rw [if_pos hsmall, List.nil_append, List.singleton_append, Nat.div_eq_of_lt (by omega)]
      · rw [if_neg hsmall, List.append_assoc, List.singleton_append,
          ih (m / 128 - 1) (by omega) true _ (by omega), if_pos rfl, if_neg (by omega)]
        congr 1
        omega
    rw [hhigh, readVarIntLoop, if_neg (by omega)]
    dsimp only
    -- the lowest group completes `m`, and its high bit says whether more follow
    have hm' : m / 128 * 128 + (UInt8.ofNat (m % 128 + if more then 0x80 else 0)).toNat % 128 = m := by
      rw [hb]
      cases more <;> simp <;> omega
    rw [hm']
    cases more with
    | false => rw [if_neg (by rw [hb]; simp; omega)]; rfl
    | true => rw [if_pos (by rw [hb]; simp)]; rfl

/-- Every number up to the type's largest reads back from its `VARINT`. -/
theorem ReadVarInt_reads (maxI : Nat) : Reads (ReadVarInt maxI) WriteVarInt (· ≤ maxI) := by
  intro n rest hn
  show readVarIntLoop maxI 0 (varIntBytes n false ++ rest) = _
  rw [readVarIntLoop_varIntBytes maxI n false rest hn]
  rfl

/-- A number below 128 is a single byte. -/
theorem WriteVarInt_of_lt {n : Nat} (h : n < 128) : WriteVarInt n = [UInt8.ofNat n] := by
  rw [WriteVarInt, varIntBytes, if_pos (by omega), Nat.mod_eq_of_lt h]
  rfl

/-- `GetSizeOfVarInt`: one byte per round of the writer's loop. -/
def GetSizeOfVarInt (n : Nat) : Nat :=
  1 + if n ≤ 0x7F then 0 else GetSizeOfVarInt (n / 128 - 1)
termination_by n
decreasing_by omega

/-- `WriteVarInt` writes as many bytes as `GetSizeOfVarInt` counts. -/
theorem length_varIntBytes (n : Nat) (more : Bool) :
    (varIntBytes n more).length = GetSizeOfVarInt n := by
  induction n using Nat.strongRecOn generalizing more with
  | ind n ih =>
    rw [varIntBytes, GetSizeOfVarInt, List.length_append, List.length_singleton]
    split_ifs with hsmall
    · rfl
    · rw [ih (n / 128 - 1) (by omega) true, Nat.add_comm]

theorem length_WriteVarInt (n : Nat) : (WriteVarInt n).length = GetSizeOfVarInt n :=
  length_varIntBytes n false

/-- A number below `2^(7k)` takes at most `k` groups: the writer's buffer of
`(sizeof(n)*8+6)/7` bytes holds every value of its type. -/
theorem GetSizeOfVarInt_le {n k : Nat} (hk : 0 < k) (h : n < 2 ^ (7 * k)) :
    GetSizeOfVarInt n ≤ k := by
  induction k generalizing n with
  | zero => omega
  | succ k ih =>
    have h128 : 2 ^ (7 * (k + 1)) = 128 * 2 ^ (7 * k) := by
      rw [Nat.mul_succ, Nat.pow_add, Nat.mul_comm]
    rw [h128] at h
    rw [GetSizeOfVarInt]
    split_ifs with hsmall
    · omega
    · -- more than one group: the higher ones are below `2^(7k)`, so `k` is not zero
      have hk' : 0 < k := by
        rcases Nat.eq_zero_or_pos k with rfl | hpos
        · rw [Nat.mul_zero, Nat.pow_zero] at h
          omega
        · exact hpos
      have hhigh : n / 128 - 1 < 2 ^ (7 * k) := by
        have := Nat.div_lt_of_lt_mul h
        omega
      have := ih hk' hhigh
      omega

/-- The largest 64-bit value fits the writer's buffer of `(8*8+6)/7 = 10` bytes. -/
theorem GetSizeOfVarInt_le_uint64_max :
    2 ^ 64 - 1 < 2 ^ (7 * 10) ∧ GetSizeOfVarInt (2 ^ 64 - 1) ≤ (8 * 8 + 6) / 7 :=
  ⟨by decide, GetSizeOfVarInt_le (by decide) (by decide)⟩

/-- The groups `ReadVarInt` has taken before its state is `k`: none at `0`, and
otherwise the continuation groups of `k - 1`. -/
def varIntPrefix (k : Nat) : List UInt8 := if k = 0 then [] else varIntBytes (k - 1) true

/-- The last group of a number closes the prefix its higher groups left. -/
theorem varIntPrefix_append (k : Nat) (c : UInt8) (more : Bool) (hmore : (c.toNat ≥ 0x80) = more) :
    varIntPrefix k ++ [c] = varIntBytes (k * 128 + c.toNat % 128) more := by
  have hc := c.toNat_lt
  have hbyte : UInt8.ofNat ((k * 128 + c.toNat % 128) % 128 + if more then 0x80 else 0) = c := by
    rw [← UInt8.toNat_inj, UInt8.toNat_ofNat']
    cases more <;> simp at hmore ⊢ <;> omega
  rw [varIntBytes, hbyte, varIntPrefix]
  rcases Nat.eq_zero_or_pos k with rfl | hk
  · rw [if_pos rfl, if_pos (by omega)]
  · rw [if_neg (by omega), if_neg (by omega)]
    congr 2
    omega

/-- `ReadVarInt` accepts only the encoding of what it returns: from state `k`, the
prefix that led there and the bytes read are the value's `VARINT`. -/
theorem readVarIntLoop_canonical (maxI : Nat) :
    ∀ (s : List UInt8) (k n : Nat) (rest : List UInt8),
      readVarIntLoop maxI k s = .ok (n, rest) →
        n ≤ maxI / 128 * 128 + 127 ∧ varIntPrefix k ++ s = varIntBytes n false ++ rest := by
  intro s
  induction s with
  | nil => intro k n rest h; cases h
  | cons c s ih =>
    intro k n rest h
    rw [readVarIntLoop] at h
    by_cases hover : k > maxI / 128
    · rw [if_pos hover] at h
      cases h
    rw [if_neg hover] at h
    dsimp only at h
    by_cases hcont : c.toNat ≥ 0x80
    · -- a continuation group: the state moves on to one past the groups read
      rw [if_pos hcont] at h
      split_ifs at h with hmax
      obtain ⟨hn, hrest⟩ := ih _ n rest h
      have hnext : varIntPrefix (k * 128 + c.toNat % 128 + 1) = varIntPrefix k ++ [c] := by
        rw [varIntPrefix, if_neg (Nat.succ_ne_zero _), Nat.add_sub_cancel,
          varIntPrefix_append k c true (by simp [hcont])]
      refine ⟨hn, ?_⟩
      rw [← hrest, hnext, List.append_assoc, List.singleton_append]
    · -- the last group
      rw [if_neg hcont] at h
      cases h
      refine ⟨by omega, ?_⟩
      rw [← varIntPrefix_append k c false (by simp [hcont]), List.append_assoc, List.singleton_append]

/-- `ReadVarInt` accepts only the `VARINT` of what it returns. -/
theorem ReadVarInt_canonical (maxI : Nat) : Canonical (ReadVarInt maxI) WriteVarInt := by
  intro s n rest h
  have hloop := (readVarIntLoop_canonical maxI s 0 n rest h).2
  rwa [varIntPrefix, if_pos rfl, List.nil_append] at hloop

/-- In a type whose largest value is all ones, what `ReadVarInt` returns fits the type. -/
theorem ReadVarInt_le {maxI : Nat} (hmax : maxI % 128 = 127) {s rest : List UInt8} {n : Nat}
    (h : (ReadVarInt maxI).run s = .ok (n, rest)) : n ≤ maxI := by
  have hn := (readVarIntLoop_canonical maxI s 0 n rest h).1
  have := Nat.div_add_mod maxI 128
  omega

theorem CompactSize_VarInt_round_trip :
    (∀ n rest, n ≤ MAX_SIZE →
        ReadCompactSize.run (WriteCompactSize n ++ rest) = .ok (n, rest) ∧
          (WriteCompactSize n).length = GetSizeOfCompactSize n) ∧
      (∀ s n rest, ReadCompactSize.run s = .ok (n, rest) →
        n ≤ MAX_SIZE ∧ s = WriteCompactSize n ++ rest) ∧
      ∀ maxI ∈ [UINT_MAX, UINT64_MAX],
        (∀ n rest, n ≤ maxI →
          (ReadVarInt maxI).run (WriteVarInt n ++ rest) = .ok (n, rest) ∧
            (WriteVarInt n).length = GetSizeOfVarInt n) ∧
        ∀ s n rest, (ReadVarInt maxI).run s = .ok (n, rest) →
          n ≤ maxI ∧ s = WriteVarInt n ++ rest := by
  refine ⟨fun n rest hn => ⟨ReadCompactSize_reads n rest hn, length_WriteCompactSize n⟩,
    fun s n rest h => ReadCompactSize_canonical h, fun maxI hmaxI => ?_⟩
  -- both types' largest values are all ones
  have hmax : maxI % 128 = 127 := by
    simp only [List.mem_cons, List.not_mem_nil, or_false] at hmaxI
    rcases hmaxI with rfl | rfl <;> rfl
  exact ⟨fun n rest hn => ⟨ReadVarInt_reads maxI n rest hn, length_WriteVarInt n⟩,
    fun s n rest h => ⟨ReadVarInt_le hmax h, ReadVarInt_canonical maxI s n rest h⟩⟩


theorem CompactSize_VarInt_round_trip_300 :
    (ReadCompactSize.run (WriteCompactSize 300 ++ [7]) = .ok (300, [7]) ∧
        (WriteCompactSize 300).length = GetSizeOfCompactSize 300) ∧
      (300 ≤ MAX_SIZE ∧ [0xfd, 0x2c, 0x01, 7] = WriteCompactSize 300 ++ [7]) ∧
      ((ReadVarInt UINT_MAX).run (WriteVarInt 300 ++ [7]) = .ok (300, [7]) ∧
        (WriteVarInt 300).length = GetSizeOfVarInt 300) ∧
      (300 ≤ UINT_MAX ∧ [0x81, 0x2c, 7] = WriteVarInt 300 ++ [7]) :=
  ⟨CompactSize_VarInt_round_trip.1 300 [7] (by decide),
    CompactSize_VarInt_round_trip.2.1 [0xfd, 0x2c, 0x01, 7] 300 [7] (by decide),
    (CompactSize_VarInt_round_trip.2.2 UINT_MAX (by simp)).1 300 [7] (by decide),
    (CompactSize_VarInt_round_trip.2.2 UINT_MAX (by simp)).2 [0x81, 0x2c, 7] 300 [7] (by decide)⟩

end BitcoinPQ

import BitcoinPQ.Core.Bits64
import Mathlib.Data.List.GetD

/-!
# The rolling bloom filter

`CRollingBloomFilter` (`bloom.cpp`) remembers about the last `nElements` keys. Each
position of the table holds a two-bit generation tag: `0` is unset, `1`, `2` and `3`
say in which generation the position was last set. The tag's low bit is in word
`2q` of `data` and its high bit in word `2q + 1`. The generations cycle `1, 2, 3`;
every `nEntriesPerGeneration = (nElements + 1) / 2` inserts the next one begins, and the
positions that still carry its number (from three generations back) are cleared first.

The result, `CRollingBloomFilter_contains_recent`: whatever keys are inserted and
whatever `MurmurHash3` computes, every key among the last `nElements` inserted since the
last `reset()` is found by `contains`. The argument counts generations from `0` without
wrapping (`generationShape`): a key of the last `nElements` went in at most two
generations back, so its tags are either still its own generation's or those of a later
one, and none has been wiped (`Tagged`).

The constructor computes `nHashFuncs` and `nFilterBits` from `fpRate` in double
precision; the model takes them as given, so the results hold for every value they
can have. `reset()` draws its tweak from `GetRand`; the model takes it as an argument.
-/

namespace BitcoinPQ

open Bits64

/-- The state of a `CRollingBloomFilter`. -/
structure CRollingBloomFilter where
  nEntriesPerGeneration : ℕ
  nEntriesThisGeneration : ℕ
  nGeneration : ℕ
  nHashFuncs : ℕ
  data : List UInt64
  nTweak : UInt32

/-- A call on the filter: `insert(vKey)`, or `reset()` drawing the tweak `nTweak`. -/
inductive BloomCall
  | insert (vKey : List UInt8)
  | reset (nTweak : UInt32)

section Filter

variable (MurmurHash3 : UInt32 → List UInt8 → UInt32)

/-- `RollingBloomHash`: hash function `nHashNum` on a key. -/
def RollingBloomHash (nHashNum : ℕ) (nTweak : UInt32) (vDataToHash : List UInt8) : UInt32 :=
  MurmurHash3 (nHashNum.toUInt32 * 0xFBA4C795 + nTweak) vDataToHash

/-- The body of `insert`'s loop for one hash `h`: the tag of bit `h & 0x3F` of the pair
of words at `(h >> 6) % data.size()` set to `nGeneration`. -/
def setGenerationBit (nGeneration : ℕ) (data : List UInt64) (h : UInt32) : List UInt64 :=
  let bit := (h &&& 0x3F).toUInt64
  let pos := (h >>> 6).toNat % data.length
  -- `pos & ~1` and `pos | 1`
  let data := data.set (pos &&& 0xFFFFFFFE)
    ((data.getD (pos &&& 0xFFFFFFFE) 0 &&& ~~~((1 : UInt64) <<< bit)) ||| ((nGeneration &&& 1).toUInt64 <<< bit))
  data.set (pos ||| 1)
    ((data.getD (pos ||| 1) 0 &&& ~~~((1 : UInt64) <<< bit)) ||| ((nGeneration >>> 1).toUInt64 <<< bit))

/-- The wipe loop of `insert` over the pairs of words: a tag equal to the pattern of
the masks is cleared. -/
def wipeGeneration (nGenerationMask1 nGenerationMask2 : UInt64) : List UInt64 → List UInt64
  | p1 :: p2 :: rest =>
    let mask := (p1 ^^^ nGenerationMask1) ||| (p2 ^^^ nGenerationMask2)
    (p1 &&& mask) :: (p2 &&& mask) :: wipeGeneration nGenerationMask1 nGenerationMask2 rest
  | data => data

/-- The start of `insert` when the generation is full: the next generation number, and
the entries that still carry it wiped. -/
def CRollingBloomFilter.nextGeneration (f : CRollingBloomFilter) : CRollingBloomFilter :=
  let nGeneration := if f.nGeneration + 1 = 4 then 1 else f.nGeneration + 1
  { f with
    nEntriesThisGeneration := 0
    nGeneration := nGeneration
    data := wipeGeneration ((0 : UInt64) - (nGeneration &&& 1).toUInt64)
      ((0 : UInt64) - (nGeneration >>> 1).toUInt64) f.data }

/-- The rest of `insert`: the key counted in the generation, and the tags of its
hashes' positions set to the generation. -/
def CRollingBloomFilter.setKey (f : CRollingBloomFilter) (vKey : List UInt8) : CRollingBloomFilter :=
  { f with
    nEntriesThisGeneration := f.nEntriesThisGeneration + 1
    data := (List.range f.nHashFuncs).foldl
      (fun data n => setGenerationBit f.nGeneration data (RollingBloomHash MurmurHash3 n f.nTweak vKey)) f.data }

/-- `CRollingBloomFilter::insert`. -/
def CRollingBloomFilter.insert (f : CRollingBloomFilter) (vKey : List UInt8) : CRollingBloomFilter :=
  (if f.nEntriesThisGeneration = f.nEntriesPerGeneration then f.nextGeneration else f).setKey MurmurHash3 vKey

/-- `CRollingBloomFilter::contains`: every hash finds a nonzero tag. -/
def CRollingBloomFilter.contains (f : CRollingBloomFilter) (vKey : List UInt8) : Bool :=
  (List.range f.nHashFuncs).all fun n =>
    let h := RollingBloomHash MurmurHash3 n f.nTweak vKey
    let bit := (h &&& 0x3F).toUInt64
    let pos := (h >>> 6).toNat % f.data.length
    ((f.data.getD (pos &&& 0xFFFFFFFE) 0 ||| f.data.getD (pos ||| 1) 0) >>> bit) &&& 1 != 0

/-- `CRollingBloomFilter::reset`, with `nTweak` the value drawn. -/
def CRollingBloomFilter.reset (f : CRollingBloomFilter) (nTweak : UInt32) : CRollingBloomFilter :=
  { f with nTweak, nEntriesThisGeneration := 0, nGeneration := 1, data := f.data.map fun _ => 0 }

/-- The constructor, given the `nHashFuncs` and `nFilterBits` it computes from `fpRate`
and the tweak its `reset()` draws; the fields that `reset()` sets start at `0`. -/
def CRollingBloomFilter.new (nElements : UInt32) (nHashFuncs : ℕ) (nFilterBits nTweak : UInt32) :
    CRollingBloomFilter :=
  CRollingBloomFilter.reset
    { nEntriesPerGeneration := ((nElements + 1) / 2).toNat
      nEntriesThisGeneration := 0
      nGeneration := 0
      nHashFuncs := nHashFuncs
      data := List.replicate (((nFilterBits + 63) / 64) <<< 1).toNat 0
      nTweak := 0 } nTweak

/-- One call on the filter. -/
def CRollingBloomFilter.call (f : CRollingBloomFilter) : BloomCall → CRollingBloomFilter
  | .insert vKey => f.insert MurmurHash3 vKey
  | .reset nTweak => f.reset nTweak

end Filter

/-- The keys inserted since the last `reset()`, after one more call. -/
def sinceReset (keys : List (List UInt8)) : BloomCall → List (List UInt8)
  | .insert vKey => keys ++ [vKey]
  | .reset _ => []

/-- The keys inserted since the last `reset()` of `calls`, oldest first. -/
def insertedSinceReset (calls : List BloomCall) : List (List UInt8) :=
  calls.foldl sinceReset []

/-! ## Generation tags -/

/-- The pair of words and the bit that hash `h` selects in a table of `size` words. -/
def hashSlot (size : ℕ) (h : UInt32) : ℕ × ℕ := ((h >>> 6).toNat % size / 2, (h &&& 0x3F).toNat)

/-- The slots of a key's hashes in the filter. -/
def CRollingBloomFilter.keySlots (MurmurHash3 : UInt32 → List UInt8 → UInt32) (f : CRollingBloomFilter)
    (vKey : List UInt8) : List (ℕ × ℕ) :=
  (List.range f.nHashFuncs).map fun n => hashSlot f.data.length (RollingBloomHash MurmurHash3 n f.nTweak vKey)

/-- The generation tag of bit `i` of pair `q`: its bit in word `2q` is the low bit of
the tag, its bit in word `2q + 1` the high bit. -/
def generationTag (data : List UInt64) (q i : ℕ) : ℕ :=
  2 * (bitAt (data.getD (2 * q + 1) 0) i).toNat + (bitAt (data.getD (2 * q) 0) i).toNat

/-- A table that `setGenerationBit` and `contains` index inside: pairs of words, at
least one, positions below `2 ^ 32`. -/
structure WellSized (data : List UInt64) : Prop where
  even : data.length % 2 = 0
  pos : 0 < data.length
  le : data.length ≤ 2 ^ 32

theorem toNat_toUInt64_and_lt (h : UInt32) : (h &&& 0x3F).toUInt64.toNat < 64 := by
  rw [UInt32.toNat_toUInt64, UInt32.toNat_and]
  exact lt_of_le_of_lt Nat.and_le_right (by decide)

theorem getD_set (l : List UInt64) (j : ℕ) (v : UInt64) (k : ℕ) :
    (l.set j v).getD k 0 = if j = k ∧ j < l.length then v else l.getD k 0 := by
  rw [List.getD_eq_getElem?_getD, List.getElem?_set, List.getD_eq_getElem?_getD]
  by_cases hjk : j = k
  · subst hjk
    by_cases hj : j < l.length <;> simp [hj]
  · simp [hjk]

section Tags

variable {data : List UInt64}

/-- The words of the pair that a position of a well-sized table lies in. -/
theorem pair_indices (hdata : WellSized data) (x : ℕ) :
    x % data.length &&& 0xFFFFFFFE = 2 * (x % data.length / 2) ∧
      x % data.length ||| 1 = 2 * (x % data.length / 2) + 1 ∧
      2 * (x % data.length / 2) + 1 < data.length := by
  have hlt := Nat.mod_lt x hdata.pos
  refine ⟨and_not_one (by have := hdata.le; omega), or_one _, ?_⟩
  have := hdata.even
  omega

@[simp] theorem length_setGenerationBit (g : ℕ) (data : List UInt64) (h : UInt32) :
    (setGenerationBit g data h).length = data.length := by
  simp [setGenerationBit]

/-- Setting a tag changes the one tag of its slot. -/
theorem generationTag_setGenerationBit (hdata : WellSized data) {g : ℕ} (hg : g < 4) (h : UInt32) (q i : ℕ) :
    generationTag (setGenerationBit g data h) q i =
      if (q, i) = hashSlot data.length h then g else generationTag data q i := by
  have hbits : ((g &&& 1).toUInt64 = 0 ∨ (g &&& 1).toUInt64 = 1) ∧
      ((g >>> 1).toUInt64 = 0 ∨ (g >>> 1).toUInt64 = 1) := by
    rcases (by omega : g = 0 ∨ g = 1 ∨ g = 2 ∨ g = 3) with rfl | rfl | rfl | rfl <;> decide
  have hbit := toNat_toUInt64_and_lt h
  obtain ⟨hlo, hhi, hlt⟩ := pair_indices hdata (h >>> 6).toNat
  unfold setGenerationBit generationTag hashSlot
  dsimp only
  generalize (h >>> 6).toNat % data.length = pos at hlo hhi hlt ⊢
  have hlo_lt : 2 * (pos / 2) < data.length := by omega
  simp only [hlo, hhi, getD_set, List.length_set, hlt, hlo_lt, and_true]
  by_cases hq : q = pos / 2
  case pos =>
    -- the slot's pair: both words are the rewritten ones
    subst hq
    simp only [if_true, show 2 * (pos / 2) + 1 ≠ 2 * (pos / 2) by omega,
      show 2 * (pos / 2) ≠ 2 * (pos / 2) + 1 by omega, if_false, bitAt_setBit _ _ _ hbit hbits.1,
      bitAt_setBit _ _ _ hbit hbits.2, UInt32.toNat_toUInt64, Prod.mk.injEq, true_and]
    by_cases hi : i = (h &&& 63).toNat
    case pos =>
      -- the two bits written spell the generation
      simp only [hi, if_true]
      rcases (by omega : g = 0 ∨ g = 1 ∨ g = 2 ∨ g = 3) with rfl | rfl | rfl | rfl <;> decide
    case neg => simp only [hi, if_false]
  case neg =>
    -- another pair: neither word was written
    have h1 : 2 * (pos / 2) + 1 ≠ 2 * q + 1 := by omega
    have h2 : 2 * (pos / 2) ≠ 2 * q + 1 := by omega
    have h3 : 2 * (pos / 2) + 1 ≠ 2 * q := by omega
    have h4 : 2 * (pos / 2) ≠ 2 * q := by omega
    simp only [h1, h2, h3, h4, if_false, Prod.mk.injEq, hq, false_and]

/-- The pairs after the first one. -/
theorem generationTag_cons_cons (a b : UInt64) (rest : List UInt64) (q i : ℕ) :
    generationTag (a :: b :: rest) (q + 1) i = generationTag rest q i := by
  simp only [generationTag, show 2 * (q + 1) = 2 * q + 1 + 1 by omega, List.getD_cons_succ]

theorem length_wipeGeneration (m1 m2 : UInt64) :
    ∀ data : List UInt64, (wipeGeneration m1 m2 data).length = data.length
  | p1 :: p2 :: rest => by
    rw [wipeGeneration, List.length_cons, List.length_cons, length_wipeGeneration m1 m2 rest]
    rfl
  | [] => rfl
  | [_] => rfl

/-- Wiping generation `g` clears the tags equal to `g` and keeps the others. -/
theorem generationTag_wipeGeneration {g : ℕ} (hg1 : 1 ≤ g) (hg3 : g ≤ 3) :
    ∀ data : List UInt64, data.length % 2 = 0 → ∀ q i : ℕ,
      generationTag (wipeGeneration ((0 : UInt64) - (g &&& 1).toUInt64) ((0 : UInt64) - (g >>> 1).toUInt64) data) q i =
        if generationTag data q i = g then 0 else generationTag data q i
  | [], _, q, i => by
    have hzero : generationTag [] q i = 0 := by simp [generationTag]
    rw [show wipeGeneration _ _ [] = [] from rfl, hzero, if_neg (by omega)]
  | [_], heven, _, _ => absurd heven (by simp)
  | p1 :: p2 :: rest, heven, 0, i => by
    have hbits : ((g &&& 1).toUInt64 = 0 ∨ (g &&& 1).toUInt64 = 1) ∧
        ((g >>> 1).toUInt64 = 0 ∨ (g >>> 1).toUInt64 = 1) := by
      rcases (by omega : g = 1 ∨ g = 2 ∨ g = 3) with rfl | rfl | rfl <;> decide
    simp only [wipeGeneration, generationTag, Nat.mul_zero, Nat.zero_add, List.getD_cons_zero,
      List.getD_cons_succ, bitAt_and_xor_or_xor, bitAt_zero_sub _ hbits.1, bitAt_zero_sub _ hbits.2]
    by_cases h64 : i < 64
    case pos =>
      -- the pair's tag against the generation's pattern, bit by bit
      simp only [h64, decide_true, Bool.true_and]
      cases bitAt p1 i <;> cases bitAt p2 i <;>
        rcases (by omega : g = 1 ∨ g = 2 ∨ g = 3) with rfl | rfl | rfl <;> decide
    case neg =>
      simp only [bitAt_of_ge _ (Nat.le_of_not_lt h64), Bool.false_and, Bool.toNat_false]
      rw [if_neg (by omega)]
  | p1 :: p2 :: rest, heven, q + 1, i => by
    have ih := generationTag_wipeGeneration hg1 hg3 rest (by simp only [List.length_cons] at heven; omega) q i
    rw [wipeGeneration, generationTag_cons_cons, generationTag_cons_cons, ih]

theorem WellSized.of_length {data' : List UInt64} (hdata : WellSized data) (hlen : data'.length = data.length) :
    WellSized data' :=
  ⟨by rw [hlen]; exact hdata.even, by rw [hlen]; exact hdata.pos, by rw [hlen]; exact hdata.le⟩

theorem length_foldl_setGenerationBit (g : ℕ) (hs : List UInt32) (data : List UInt64) :
    (hs.foldl (setGenerationBit g) data).length = data.length := by
  induction hs generalizing data with
  | nil => rfl
  | cons h hs ih => rw [List.foldl_cons, ih, length_setGenerationBit]

/-- Setting the tags of the slots of several hashes to `g`. -/
theorem generationTag_foldl_setGenerationBit (hdata : WellSized data) {g : ℕ} (hg : g < 4) (hs : List UInt32)
    (q i : ℕ) :
    generationTag (hs.foldl (setGenerationBit g) data) q i =
      if (q, i) ∈ hs.map (hashSlot data.length) then g else generationTag data q i := by
  induction hs generalizing data with
  | nil => simp
  | cons h hs ih =>
    rw [List.foldl_cons, ih (hdata.of_length (length_setGenerationBit g data h)), length_setGenerationBit,
      generationTag_setGenerationBit hdata hg, List.map_cons]
    by_cases hslot : (q, i) = hashSlot data.length h <;>
      by_cases hin : (q, i) ∈ hs.map (hashSlot data.length) <;> simp [hslot, hin]

/-- One probe of `contains`: the tag of the hash's slot is set. -/
theorem probe_eq (hdata : WellSized data) (h : UInt32) :
    (((data.getD ((h >>> 6).toNat % data.length &&& 0xFFFFFFFE) 0 |||
        data.getD ((h >>> 6).toNat % data.length ||| 1) 0) >>> (h &&& 0x3F).toUInt64) &&& 1 != 0) =
      decide (generationTag data (hashSlot data.length h).1 (hashSlot data.length h).2 ≠ 0) := by
  obtain ⟨hlo, hhi, -⟩ := pair_indices hdata (h >>> 6).toNat
  rw [hlo, hhi, shiftRight_and_one_ne_zero _ _ (toNat_toUInt64_and_lt h), bitAt_or, UInt32.toNat_toUInt64]
  unfold generationTag hashSlot
  cases bitAt (data.getD (2 * ((h >>> 6).toNat % data.length / 2)) 0) (h &&& 63).toNat <;>
    cases bitAt (data.getD (2 * ((h >>> 6).toNat % data.length / 2) + 1) 0) (h &&& 63).toNat <;> decide

end Tags

/-! ## Generations -/

/-- The generations of the keys inserted since `reset()`, counted from `0` without
wrapping: each of the `G` generations before the current one got `E` keys, the current
generation `G` has `c` so far. -/
def generationShape (E G c : ℕ) : List ℕ :=
  (List.range G).flatMap (fun g => List.replicate E g) ++ List.replicate c G

/-- A full generation is the start of the next one. -/
theorem generationShape_full (E G : ℕ) : generationShape E G E = generationShape E (G + 1) 0 := by
  simp [generationShape, List.range_succ, List.flatMap_append]

theorem generationShape_succ (E G c : ℕ) : generationShape E G c ++ [G] = generationShape E G (c + 1) := by
  simp [generationShape, List.replicate_succ']

theorem le_of_mem_generationShape {E G c g : ℕ} (hg : g ∈ generationShape E G c) : g ≤ G := by
  simp only [generationShape, List.mem_append, List.mem_flatMap, List.mem_range, List.mem_replicate] at hg
  omega

/-- The last `n ≤ 2E` keys went in at most two generations back. -/
theorem generationShape_window {E n : ℕ} (hn : n ≤ 2 * E ∨ E = 0) (G c : ℕ) :
    ∀ g ∈ (generationShape E G c).drop ((generationShape E G c).length - n), G ≤ g + 2 := by
  intro g hg
  rcases hn with hn | hE
  case inr =>
    -- no generation ever fills: every key is of the current one
    subst hE
    have hmem := List.mem_of_mem_drop hg
    simp [generationShape] at hmem
    omega
  case inl =>
    rcases Nat.lt_or_ge G 2 with hG | hG
    · omega
    obtain ⟨K, rfl⟩ : ∃ K, G = K + 2 := ⟨G - 2, by omega⟩
    -- the older generations lie before the last `2E + c` keys
    set old := (List.range K).flatMap (fun g => List.replicate E g)
    set recent := List.replicate E K ++ List.replicate E (K + 1) ++ List.replicate c (K + 2)
    have hshape : generationShape E (K + 2) c = old ++ recent := by
      simp [generationShape, old, recent, List.range_succ, List.flatMap_append]
    have hrecent : recent.length = 2 * E + c := by
      simp only [recent, List.length_append, List.length_replicate]
      omega
    rw [hshape, List.drop_append, List.drop_eq_nil_of_le (by rw [List.length_append]; omega),
      List.nil_append] at hg
    have hmem := List.mem_of_mem_drop hg
    simp only [recent, List.mem_append, List.mem_replicate] at hmem
    omega

section Run

variable (MurmurHash3 : UInt32 → List UInt8 → UInt32)

/-- `contains` finds a key exactly when all its slots carry a tag. -/
theorem contains_eq_true_iff {f : CRollingBloomFilter} (hdata : WellSized f.data) (vKey : List UInt8) :
    f.contains MurmurHash3 vKey = true ↔ ∀ s ∈ f.keySlots MurmurHash3 vKey, generationTag f.data s.1 s.2 ≠ 0 := by
  unfold CRollingBloomFilter.contains CRollingBloomFilter.keySlots
  simp only [List.all_eq_true, probe_eq hdata, decide_eq_true_eq, List.forall_mem_map]

/-- The filter after `reset()` and the keys `hist`, each with the generation it went in
with: generation `G` is current, the generations follow `generationShape`, and every
slot of a key from the last three generations carries the tag of a generation since. -/
structure CRollingBloomFilter.Tagged (f : CRollingBloomFilter) (hist : List (List UInt8 × ℕ)) (G : ℕ) :
    Prop where
  wellSized : WellSized f.data
  generation : f.nGeneration = G % 3 + 1
  shape : hist.map Prod.snd = generationShape f.nEntriesPerGeneration G f.nEntriesThisGeneration
  tags : ∀ kg ∈ hist, G ≤ kg.2 + 2 → ∀ s ∈ f.keySlots MurmurHash3 kg.1,
    ∃ T, kg.2 ≤ T ∧ T ≤ G ∧ generationTag f.data s.1 s.2 = T % 3 + 1

variable {MurmurHash3}

theorem keySlots_congr {f f' : CRollingBloomFilter} (hlen : f'.data.length = f.data.length)
    (hfuncs : f'.nHashFuncs = f.nHashFuncs) (htweak : f'.nTweak = f.nTweak) (vKey : List UInt8) :
    f'.keySlots MurmurHash3 vKey = f.keySlots MurmurHash3 vKey := by
  rw [CRollingBloomFilter.keySlots, CRollingBloomFilter.keySlots, hlen, hfuncs, htweak]

/-- A full generation: the next one starts, and the tags of the last two survive the wipe. -/
theorem CRollingBloomFilter.Tagged.nextGeneration {f : CRollingBloomFilter} {hist : List (List UInt8 × ℕ)}
    {G : ℕ} (h : f.Tagged MurmurHash3 hist G) (hfull : f.nEntriesThisGeneration = f.nEntriesPerGeneration) :
    f.nextGeneration.Tagged MurmurHash3 hist (G + 1) := by
  have hgen : f.nextGeneration.nGeneration = (G + 1) % 3 + 1 := by
    simp only [CRollingBloomFilter.nextGeneration, h.generation]
    split <;> omega
  have hdata : f.nextGeneration.data = wipeGeneration ((0 : UInt64) - (((G + 1) % 3 + 1) &&& 1).toUInt64)
      ((0 : UInt64) - (((G + 1) % 3 + 1) >>> 1).toUInt64) f.data := by
    rw [← hgen]
    rfl
  have hlen : f.nextGeneration.data.length = f.data.length := by rw [hdata, length_wipeGeneration]
  refine ⟨h.wellSized.of_length hlen, hgen, ?_, ?_⟩
  · rw [h.shape, hfull, generationShape_full]
    rfl
  · intro kg hkg hrecent s hs
    rw [keySlots_congr hlen rfl rfl] at hs
    obtain ⟨T, hT, hTG, htag⟩ := h.tags kg hkg (by omega) s hs
    -- the tag is of one of the last two generations, not of the one wiped
    refine ⟨T, hT, by omega, ?_⟩
    rw [hdata, generationTag_wipeGeneration (by omega) (by omega) _ h.wellSized.even, htag, if_neg (by omega)]

/-- Setting a key's tags to the current generation. -/
theorem CRollingBloomFilter.Tagged.setKey {f : CRollingBloomFilter} {hist : List (List UInt8 × ℕ)} {G : ℕ}
    (h : f.Tagged MurmurHash3 hist G) (vKey : List UInt8) :
    (f.setKey MurmurHash3 vKey).Tagged MurmurHash3 (hist ++ [(vKey, G)]) G := by
  have hg : f.nGeneration < 4 := by rw [h.generation]; omega
  have hfold : (f.setKey MurmurHash3 vKey).data =
      ((List.range f.nHashFuncs).map fun n => RollingBloomHash MurmurHash3 n f.nTweak vKey).foldl
        (setGenerationBit f.nGeneration) f.data := by
    rw [List.foldl_map]
    rfl
  have hlen : (f.setKey MurmurHash3 vKey).data.length = f.data.length := by
    rw [hfold, length_foldl_setGenerationBit]
  have hslots : ((List.range f.nHashFuncs).map fun n => RollingBloomHash MurmurHash3 n f.nTweak vKey).map
      (hashSlot f.data.length) = f.keySlots MurmurHash3 vKey := by
    rw [List.map_map]
    rfl
  refine ⟨h.wellSized.of_length hlen, h.generation, ?_, ?_⟩
  · rw [List.map_append, h.shape, List.map_singleton, generationShape_succ]
    rfl
  · intro kg hkg hrecent s hs
    rw [keySlots_congr hlen rfl rfl] at hs
    rw [hfold, generationTag_foldl_setGenerationBit h.wellSized hg, hslots, Prod.mk.eta]
    rcases List.mem_append.mp hkg with hold | hnew
    case inl =>
      -- an earlier key: a slot it shares with the new key now carries the current generation
      by_cases hin : s ∈ f.keySlots MurmurHash3 vKey
      · have hle : kg.2 ≤ G :=
          le_of_mem_generationShape (h.shape ▸ List.mem_map.mpr ⟨kg, hold, rfl⟩)
        exact ⟨G, hle, le_rfl, by rw [if_pos hin, h.generation]⟩
      · rw [if_neg hin]
        exact h.tags kg hold hrecent s hs
    case inr =>
      rw [List.mem_singleton.mp hnew] at hs ⊢
      exact ⟨G, le_rfl, le_rfl, by rw [if_pos hs, h.generation]⟩

/-- `insert` keeps the invariant, the key recorded with the generation it went in with. -/
theorem CRollingBloomFilter.Tagged.insert {f : CRollingBloomFilter} {hist : List (List UInt8 × ℕ)} {G : ℕ}
    (h : f.Tagged MurmurHash3 hist G) (vKey : List UInt8) :
    ∃ G', (f.insert MurmurHash3 vKey).Tagged MurmurHash3 (hist ++ [(vKey, G')]) G' := by
  unfold CRollingBloomFilter.insert
  split
  case isTrue hfull => exact ⟨G + 1, (h.nextGeneration hfull).setKey vKey⟩
  case isFalse => exact ⟨G, h.setKey vKey⟩

/-- After `reset()` nothing is recorded, in generation `0`. -/
theorem CRollingBloomFilter.tagged_reset {f : CRollingBloomFilter} (hdata : WellSized f.data) (nTweak : UInt32) :
    (f.reset nTweak).Tagged MurmurHash3 [] 0 :=
  ⟨hdata.of_length (List.length_map _), rfl, by simp [CRollingBloomFilter.reset, generationShape],
    fun _ hkg => absurd hkg List.not_mem_nil⟩

/-- Any calls keep the invariant, recording the keys inserted since the last `reset()`. -/
theorem CRollingBloomFilter.Tagged.calls :
    ∀ (calls : List BloomCall) {f : CRollingBloomFilter} {hist : List (List UInt8 × ℕ)} {G : ℕ},
      f.Tagged MurmurHash3 hist G →
      ∃ hist' G', (calls.foldl (CRollingBloomFilter.call MurmurHash3) f).Tagged MurmurHash3 hist' G' ∧
        hist'.map Prod.fst = calls.foldl sinceReset (hist.map Prod.fst)
  | [], _, hist, G, h => ⟨hist, G, h, rfl⟩
  | .insert vKey :: calls, _, _, _, h => by
    obtain ⟨G', h'⟩ := h.insert vKey
    obtain ⟨hist'', G'', h'', hkeys⟩ := CRollingBloomFilter.Tagged.calls calls h'
    refine ⟨hist'', G'', h'', ?_⟩
    rw [hkeys, List.map_append]
    rfl
  | .reset nTweak :: calls, _, _, _, h =>
    CRollingBloomFilter.Tagged.calls calls (CRollingBloomFilter.tagged_reset h.wellSized nTweak)

theorem nEntriesPerGeneration_foldl_call :
    ∀ (calls : List BloomCall) (f : CRollingBloomFilter),
      (calls.foldl (CRollingBloomFilter.call MurmurHash3) f).nEntriesPerGeneration = f.nEntriesPerGeneration
  | [], _ => rfl
  | .insert vKey :: calls, f => by
    rw [List.foldl_cons, nEntriesPerGeneration_foldl_call calls]
    show (f.insert MurmurHash3 vKey).nEntriesPerGeneration = _
    unfold CRollingBloomFilter.insert
    split <;> rfl
  | .reset _ :: calls, f => by
    rw [List.foldl_cons, nEntriesPerGeneration_foldl_call calls]
    rfl

end Run

/-- The table the constructor allocates: pairs of words, below `2 ^ 32`. -/
theorem length_new (nElements : UInt32) (nHashFuncs : ℕ) (nFilterBits nTweak : UInt32) :
    (CRollingBloomFilter.new nElements nHashFuncs nFilterBits nTweak).data.length % 2 = 0 ∧
      (CRollingBloomFilter.new nElements nHashFuncs nFilterBits nTweak).data.length ≤ 2 ^ 32 := by
  have hwords : (((nFilterBits + 63) / 64) <<< 1).toNat = ((nFilterBits + 63) / 64).toNat * 2 % 2 ^ 32 := by
    simp [UInt32.toNat_shiftLeft, Nat.shiftLeft_eq]
  simp only [CRollingBloomFilter.new, CRollingBloomFilter.reset, List.length_map, List.length_replicate, hwords]
  omega

/-- No false negatives: whatever `MurmurHash3` computes and whatever calls are made, every
key among the last `nElements` inserted since the last `reset()` is found, in every
filter the constructor builds with a table. -/
theorem CRollingBloomFilter_contains_recent (MurmurHash3 : UInt32 → List UInt8 → UInt32) (nElements : UInt32)
    (nHashFuncs : ℕ) (nFilterBits nTweak : UInt32)
    (hdata : 0 < (CRollingBloomFilter.new nElements nHashFuncs nFilterBits nTweak).data.length)
    (calls : List BloomCall) :
    ∀ vKey ∈ (insertedSinceReset calls).drop ((insertedSinceReset calls).length - nElements.toNat),
      (calls.foldl (CRollingBloomFilter.call MurmurHash3)
        (CRollingBloomFilter.new nElements nHashFuncs nFilterBits nTweak)).contains MurmurHash3 vKey = true := by
  set f₀ := CRollingBloomFilter.new nElements nHashFuncs nFilterBits nTweak with hf₀
  obtain ⟨heven, hle⟩ := length_new nElements nHashFuncs nFilterBits nTweak
  have hsize : WellSized f₀.data := ⟨heven, hdata, hle⟩
  have h₀ : f₀.Tagged MurmurHash3 [] 0 :=
    CRollingBloomFilter.tagged_reset (hsize.of_length (List.length_map _).symm) nTweak
  obtain ⟨hist, G, h, hkeys⟩ := h₀.calls calls
  rw [List.map_nil] at hkeys
  -- `nEntriesPerGeneration` makes two generations hold the window, or none ever fills
  have hwide : nElements.toNat ≤ 2 * (calls.foldl (CRollingBloomFilter.call MurmurHash3) f₀).nEntriesPerGeneration ∨
      (calls.foldl (CRollingBloomFilter.call MurmurHash3) f₀).nEntriesPerGeneration = 0 := by
    rw [nEntriesPerGeneration_foldl_call]
    show nElements.toNat ≤ 2 * ((nElements + 1) / 2).toNat ∨ ((nElements + 1) / 2).toNat = 0
    have hlt := nElements.toNat_lt
    rw [UInt32.toNat_div, UInt32.toNat_add, UInt32.toNat_one, show (2 : UInt32).toNat = 2 from rfl]
    omega
  intro vKey hv
  rw [insertedSinceReset, ← hkeys, List.length_map, ← List.map_drop] at hv
  obtain ⟨kg, hkg, rfl⟩ := List.mem_map.mp hv
  -- the key went in at most two generations back
  have hrecent : G ≤ kg.2 + 2 := by
    have hmem : kg.2 ∈ (hist.map Prod.snd).drop ((hist.map Prod.snd).length - nElements.toNat) := by
      rw [List.length_map, ← List.map_drop]
      exact List.mem_map.mpr ⟨kg, hkg, rfl⟩
    rw [h.shape] at hmem
    exact generationShape_window hwide G _ kg.2 hmem
  rw [contains_eq_true_iff MurmurHash3 h.wellSized]
  intro s hs
  obtain ⟨T, -, -, htag⟩ := h.tags kg (List.mem_of_mem_drop hkg) hrecent s hs
  rw [htag]
  omega

theorem CRollingBloomFilter_contains_recent_ten :
    0 < (CRollingBloomFilter.new 10 3 100 7).data.length ∧
      ∀ vKey ∈ (insertedSinceReset [.insert [1], .reset 5, .insert [2], .insert [3]]).drop
          ((insertedSinceReset [.insert [1], .reset 5, .insert [2], .insert [3]]).length - (10 : UInt32).toNat),
        ([.insert [1], .reset 5, .insert [2], .insert [3]].foldl (CRollingBloomFilter.call fun seed _ => seed)
          (CRollingBloomFilter.new 10 3 100 7)).contains (fun seed _ => seed) vKey = true :=
  ⟨by decide, CRollingBloomFilter_contains_recent (fun seed _ => seed) 10 3 100 7 (by decide) _⟩

end BitcoinPQ

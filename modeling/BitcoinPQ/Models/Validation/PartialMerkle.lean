import Mathlib.Data.List.GetD
import Mathlib.Data.Nat.Bitwise
import Mathlib.Tactic.Ring
import BitcoinPQ.Models.Validation.Merkle
import BitcoinPQ.Models.Primitives.RoundTrip
import BitcoinPQ.Models.Serialize.SizeComputer

/-!
# Partial Merkle trees

`merkleblock.cpp` and `merkleblock.h`. A `CPartialMerkleTree` shows that some
transactions are in a block. A depth-first walk of the Merkle tree stores one flag bit
for each node it visits, set when the node is above a matched transaction, and the hash
of each node it does not descend below: a leaf, or a node above no match.
`ExtractMatches` walks the same way, consuming bits and hashes, rebuilds the root and
collects the matched transactions with their positions. On the wire the bits are packed
into bytes, least significant first, so a reader sees up to seven more `false` bits.

The node hash is `hashPair Hash`, as in `ComputeMerkleRoot`. Counts and positions are
`unsigned int` in the source. `ExtractMatches` accepts at most
`MAX_BLOCK_WEIGHT / MIN_TRANSACTION_WEIGHT = 16666` transactions, so heights stay below
16 and no shift or sum reaches `2 ^ 32`; the model computes them in `Nat`.

The node at `(height, pos)` stands for the leaves `leafRange`. The main lemma
`TraverseAndExtract_build` reads back what `TraverseAndBuild` wrote: the walk returns
`CalcHash`, consumes exactly the bits and hashes of the subtree and appends its matches
in order. It needs sibling nodes with different hashes, which holds for distinct
transactions under a hash with no collision within a level.
-/

namespace BitcoinPQ

open MerkleTree

/-- `MAX_BLOCK_WEIGHT` of this fork. -/
def MAX_BLOCK_WEIGHT : Nat := 32000000

/-- `MIN_TRANSACTION_WEIGHT`: sixty bytes at the witness scale. -/
def MIN_TRANSACTION_WEIGHT : Nat := WITNESS_SCALE_FACTOR * 60

/-- `CPartialMerkleTree`: the number of transactions of the block, the flag bits, the
hashes in depth-first order and the flag for invalid data. -/
structure CPartialMerkleTree where
  nTransactions : Nat
  vBits : List Bool
  vHash : List UInt256
  fBad : Bool

/-- `CalcTreeWidth`: the number of nodes at `height`. -/
def CalcTreeWidth (nTransactions height : Nat) : Nat :=
  (nTransactions + (1 <<< height) - 1) >>> height

/-- `CalcHash`: the hash of node `pos` at `height`; a node without a right child is
paired with itself. -/
def CalcHash (Hash : List UInt8 → UInt256) (nTransactions : Nat) (vTxid : List UInt256) :
    Nat → Nat → UInt256
  | 0, pos => vTxid.getD pos UInt256.zero
  | height + 1, pos =>
    let left := CalcHash Hash nTransactions vTxid height (pos * 2)
    let right :=
      if pos * 2 + 1 < CalcTreeWidth nTransactions height then
        CalcHash Hash nTransactions vTxid height (pos * 2 + 1)
      else left
    hashPair Hash left right

/-- The loop of `TraverseAndBuild` that computes `fParentOfMatch`: `p` runs from
`pos << height` while it is below `(pos + 1) << height` and `nTransactions`. -/
def parentOfMatch (nTransactions : Nat) (vMatch : List Bool) (height pos : Nat) : Bool :=
  (List.range' (pos <<< height) (min ((pos + 1) <<< height) nTransactions - pos <<< height)).foldl
    (fun fParentOfMatch p => fParentOfMatch || vMatch.getD p false) false

/-- `TraverseAndBuild`, on `(vBits, vHash)`: the flag bit of the node, then either the
hash of the node or the walks of its children. -/
def TraverseAndBuild (Hash : List UInt8 → UInt256) (nTransactions : Nat) (vTxid : List UInt256)
    (vMatch : List Bool) : Nat → Nat → List Bool × List UInt256 → List Bool × List UInt256
  | height, pos, (vBits, vHash) =>
    let fParentOfMatch := parentOfMatch nTransactions vMatch height pos
    let vBits := vBits ++ [fParentOfMatch]
    -- descend below a node above a match, unless it is a leaf
    match height, fParentOfMatch with
    | height + 1, true =>
      let st := TraverseAndBuild Hash nTransactions vTxid vMatch height (pos * 2) (vBits, vHash)
      if pos * 2 + 1 < CalcTreeWidth nTransactions height then
        TraverseAndBuild Hash nTransactions vTxid vMatch height (pos * 2 + 1) st
      else st
    | height, _ => (vBits, vHash ++ [CalcHash Hash nTransactions vTxid height pos])

/-- The loop `while (CalcTreeWidth(nHeight) > 1) nHeight++`, with `fuel` passes. -/
def treeHeightLoop (nTransactions : Nat) : Nat → Nat → Nat
  | 0, nHeight => nHeight
  | fuel + 1, nHeight =>
    if CalcTreeWidth nTransactions nHeight > 1 then treeHeightLoop nTransactions fuel (nHeight + 1)
    else nHeight

/-- The height of the tree. The width halves from one level to the next, so
`nTransactions` passes are enough. -/
def treeHeight (nTransactions : Nat) : Nat := treeHeightLoop nTransactions nTransactions 0

/-- The constructor `CPartialMerkleTree(vTxid, vMatch)`. -/
def CPartialMerkleTree.ofMatches (Hash : List UInt8 → UInt256) (vTxid : List UInt256)
    (vMatch : List Bool) : CPartialMerkleTree :=
  let nTransactions := vTxid.length
  let (vBits, vHash) :=
    TraverseAndBuild Hash nTransactions vTxid vMatch (treeHeight nTransactions) 0 ([], [])
  ⟨nTransactions, vBits, vHash, false⟩

/-- What `TraverseAndExtract` updates: the two counters, the two output vectors and
`fBad`. -/
structure ExtractState where
  nBitsUsed : Nat
  nHashUsed : Nat
  vMatch : List UInt256
  vnIndex : List Nat
  fBad : Bool

/-- The branch of `TraverseAndExtract` at a leaf or below a `false` bit: take the next
stored hash; a leaf whose bit is set is a match. -/
def useStoredHash (t : CPartialMerkleTree) (height pos : Nat) (fParentOfMatch : Bool)
    (s : ExtractState) : UInt256 × ExtractState :=
  if s.nHashUsed ≥ t.vHash.length then (UInt256.zero, { s with fBad := true })
  else
    let hash := t.vHash.getD s.nHashUsed UInt256.zero
    let s := { s with nHashUsed := s.nHashUsed + 1 }
    if height = 0 ∧ fParentOfMatch = true then
      (hash, { s with vMatch := s.vMatch ++ [hash], vnIndex := s.vnIndex ++ [pos] })
    else (hash, s)

/-- `TraverseAndExtract`: the hash of node `pos` at `height`, from the next bits and
hashes. -/
def TraverseAndExtract (Hash : List UInt8 → UInt256) (t : CPartialMerkleTree) :
    Nat → Nat → ExtractState → UInt256 × ExtractState
  | height, pos, s =>
    if s.nBitsUsed ≥ t.vBits.length then (UInt256.zero, { s with fBad := true })
    else
      let fParentOfMatch := t.vBits.getD s.nBitsUsed false
      let s := { s with nBitsUsed := s.nBitsUsed + 1 }
      match height, fParentOfMatch with
      | height + 1, true =>
        let (left, s) := TraverseAndExtract Hash t height (pos * 2) s
        if pos * 2 + 1 < CalcTreeWidth t.nTransactions height then
          let (right, s) := TraverseAndExtract Hash t height (pos * 2 + 1) s
          -- two equal branches would hold a transaction twice
          (hashPair Hash left right, if right = left then { s with fBad := true } else s)
        else (hashPair Hash left left, s)
      | height, fParentOfMatch => useStoredHash t height pos fParentOfMatch s

/-- `ExtractMatches(vMatch, vnIndex)`: the root, or `uint256()` on failure, the matched
transactions (`vMatch` is cleared first, `vnIndex` is not), and the tree with `fBad` as
the walk left it. -/
def CPartialMerkleTree.ExtractMatches (Hash : List UInt8 → UInt256) (t : CPartialMerkleTree)
    (_vMatch : List UInt256) (vnIndex : List Nat) :
    (UInt256 × List UInt256 × List Nat) × CPartialMerkleTree :=
  let vMatch : List UInt256 := []
  if t.nTransactions = 0 then ((UInt256.zero, vMatch, vnIndex), t)
  else if t.nTransactions > MAX_BLOCK_WEIGHT / MIN_TRANSACTION_WEIGHT then
    ((UInt256.zero, vMatch, vnIndex), t)
  else if t.vHash.length > t.nTransactions then ((UInt256.zero, vMatch, vnIndex), t)
  else if t.vBits.length < t.vHash.length then ((UInt256.zero, vMatch, vnIndex), t)
  else
    let nHeight := treeHeight t.nTransactions
    let (hashMerkleRoot, s) := TraverseAndExtract Hash t nHeight 0 ⟨0, 0, vMatch, vnIndex, t.fBad⟩
    let t := { t with fBad := s.fBad }
    if s.fBad then ((UInt256.zero, s.vMatch, s.vnIndex), t)
    -- all bits consumed, but for the padding of the last byte
    else if (s.nBitsUsed + 7) / 8 ≠ (t.vBits.length + 7) / 8 then ((UInt256.zero, s.vMatch, s.vnIndex), t)
    else if s.nHashUsed ≠ t.vHash.length then ((UInt256.zero, s.vMatch, s.vnIndex), t)
    else ((hashMerkleRoot, s.vMatch, s.vnIndex), t)

/-! ## Serialization -/

/-- One pass of the packing loop: `vBytes[p / 8] |= vBits[p] << (p % 8)`. -/
def packStep (vBits : List Bool) (vBytes : List UInt8) (p : Nat) : List UInt8 :=
  vBytes.modify (p / 8) fun b => b ||| UInt8.ofNat ((vBits.getD p false).toNat <<< (p % 8))

/-- The writing branch of `SerializationOp`: `(vBits.size() + 7) / 8` zero bytes, then one
pass of the packing loop for each bit. -/
def packBits (vBits : List Bool) : List UInt8 :=
  (List.range vBits.length).foldl (packStep vBits) (List.replicate ((vBits.length + 7) / 8) 0)

/-- The reading branch of `SerializationOp`: eight bits per byte,
`vBits[p] = (vBytes[p / 8] & (1 << (p % 8))) != 0`. -/
def unpackBits (vBytes : List UInt8) : List Bool :=
  (List.range (vBytes.length * 8)).map fun p => (vBytes.getD (p / 8) 0).toNat &&& (1 <<< (p % 8)) != 0

/-- `Serialize`: `nTransactions` as a `uint32_t`, the hashes, and the packed bits as a byte
vector. -/
def CPartialMerkleTree.Serialize (t : CPartialMerkleTree) : List UInt8 :=
  ser_writedata32 (UInt32.ofNat t.nTransactions) ++ serializeVector CDataStream UInt256.data t.vHash ++
    serializeBytes CDataStream (packBits t.vBits)

/-- `Unserialize`; the reader clears `fBad`. -/
def CPartialMerkleTree.Unserialize : Reader CPartialMerkleTree := do
  let nTransactions ← ser_readdata32
  let vHash ← unserializeVector unserializeUInt256 (5000000 / 32) (by decide)
  let vBytes ← unserializeBytes
  pure ⟨nTransactions.toNat, unpackBits vBytes, vHash, false⟩

/-! ## The shape of the tree -/

theorem CalcTreeWidth_eq (nTransactions height : Nat) :
    CalcTreeWidth nTransactions height = size nTransactions height := by
  rw [CalcTreeWidth, Nat.one_shiftLeft, Nat.shiftRight_eq_div_pow, size_eq]

/-- The height loop stops at the first level of one node, the level of the root. -/
theorem treeHeightLoop_eq (n : Nat) :
    ∀ fuel height, height ≤ Nat.clog 2 n → Nat.clog 2 n - height ≤ fuel →
      treeHeightLoop n fuel height = Nat.clog 2 n
  | 0, height, hle, hfuel => by
    rw [treeHeightLoop]
    omega
  | fuel + 1, height, hle, hfuel => by
    rw [treeHeightLoop, CalcTreeWidth_eq]
    by_cases hlt : height < Nat.clog 2 n
    · -- below the root a level has at least two nodes
      rw [if_pos (one_lt_size ((Nat.lt_clog_iff_pow_lt Nat.one_lt_two).mp hlt))]
      exact treeHeightLoop_eq n fuel (height + 1) (by omega) (by omega)
    · have hroot : height = Nat.clog 2 n := by omega
      have hone : ¬1 < size n height := fun h1 => by
        have hlt' := lt_size_iff.mp h1
        rw [Nat.one_mul, hroot] at hlt'
        exact absurd (Nat.le_pow_clog Nat.one_lt_two n) (not_le.mpr hlt')
      rw [if_neg hone, hroot]

theorem treeHeight_eq (n : Nat) : treeHeight n = Nat.clog 2 n :=
  treeHeightLoop_eq n n 0 (Nat.zero_le _) (by
    have := Nat.clog_le_of_le_pow (b := 2) (Nat.lt_two_pow_self (n := n)).le
    omega)

/-- The leaves below node `pos` at `height`: from `pos * 2 ^ height` up to the leaves of
the next node or the last leaf. -/
def leafRange (nTransactions height pos : Nat) : List Nat :=
  List.range' (pos * 2 ^ height) (min ((pos + 1) * 2 ^ height) nTransactions - pos * 2 ^ height)

theorem foldl_or_eq_any (g : Nat → Bool) :
    ∀ (l : List Nat) (b : Bool), l.foldl (fun f p => f || g p) b = (b || l.any g)
  | [], b => by rw [List.foldl_nil, List.any_nil, Bool.or_false]
  | p :: l, b => by rw [List.foldl_cons, foldl_or_eq_any g l, List.any_cons, Bool.or_assoc]

/-- `fParentOfMatch`: some leaf below the node is matched. -/
theorem parentOfMatch_eq (n : Nat) (vMatch : List Bool) (height pos : Nat) :
    parentOfMatch n vMatch height pos = (leafRange n height pos).any fun p => vMatch.getD p false := by
  rw [parentOfMatch, foldl_or_eq_any, Bool.false_or, leafRange, Nat.shiftLeft_eq, Nat.shiftLeft_eq]

/-- The leaves of a node are those of its two children. -/
theorem leafRange_succ (n height pos : Nat) :
    leafRange n (height + 1) pos = leafRange n height (pos * 2) ++ leafRange n height (pos * 2 + 1) := by
  have e1 : pos * 2 ^ (height + 1) = pos * 2 * 2 ^ height := by ring
  have e2 : (pos * 2 + 1) * 2 ^ height = pos * 2 * 2 ^ height + 2 ^ height := by ring
  have e3 : (pos + 1) * 2 ^ (height + 1) = pos * 2 * 2 ^ height + 2 ^ height + 2 ^ height := by ring
  have e4 : (pos * 2 + 1 + 1) * 2 ^ height = pos * 2 * 2 ^ height + 2 ^ height + 2 ^ height := by ring
  simp only [leafRange]
  rw [e1, e2, e3, e4]
  generalize pos * 2 * 2 ^ height = a
  generalize 2 ^ height = w
  by_cases hn : n ≤ a + w
  · -- no leaf below the right child
    rw [show min (a + w + w) n - (a + w) = 0 by omega, List.range'_zero, List.append_nil,
      show min (a + w + w) n = min (a + w) n by omega]
  · have hsplit := @List.range'_append a w (min (a + w + w) n - (a + w)) 1
    rw [Nat.one_mul] at hsplit
    rw [show min (a + w) n - a = w by omega, hsplit, show w + (min (a + w + w) n - (a + w)) = min (a + w + w) n - a by omega]

theorem leafRange_zero {n pos : Nat} (hpos : pos < n) : leafRange n 0 pos = [pos] := by
  rw [leafRange, Nat.pow_zero, Nat.mul_one, Nat.mul_one, show min (pos + 1) n - pos = 1 by omega]
  rfl

/-- A node beyond the width of its level has no leaves. -/
theorem leafRange_of_size_le {n height pos : Nat} (h : size n height ≤ pos) : leafRange n height pos = [] := by
  have hle : n ≤ pos * 2 ^ height := not_lt.mp fun hlt => absurd (lt_size_iff.mpr hlt) (not_lt.mpr h)
  rw [leafRange, show min ((pos + 1) * 2 ^ height) n - pos * 2 ^ height = 0 by omega, List.range'_zero]

/-- The root stands for every leaf. -/
theorem leafRange_root (n : Nat) : leafRange n (Nat.clog 2 n) 0 = List.range n := by
  rw [leafRange, Nat.zero_mul, Nat.zero_add, Nat.one_mul, Nat.sub_zero,
    min_eq_right (Nat.le_pow_clog Nat.one_lt_two n), List.range_eq_range']

theorem length_leafRange_pos {n height pos : Nat} (h : pos < size n height) : 0 < (leafRange n height pos).length := by
  have hlt := lt_size_iff.mp h
  rw [leafRange, List.length_range']
  have : pos * 2 ^ height < (pos + 1) * 2 ^ height := Nat.mul_lt_mul_of_pos_right (Nat.lt_succ_self pos) (Nat.two_pow_pos _)
  omega

/-! ## Node hashes -/

section Hashes

variable (Hash : List UInt8 → UInt256) (vTxid : List UInt256)

/-- `CalcHash` is node `pos` of level `height` of the Merkle tree over the transactions. -/
theorem CalcHash_levels : ∀ height pos, pos < size vTxid.length height →
    (levels (hashPair Hash) vTxid height)[pos]? = some (CalcHash Hash vTxid.length vTxid height pos)
  | 0, pos, hpos => by
    rw [levels_zero, CalcHash, List.getD_eq_getElem?_getD, List.getElem?_eq_getElem hpos]
    rfl
  | height + 1, pos, hpos => by
    have hleft : pos * 2 < size vTxid.length height := by
      rw [size] at hpos
      omega
    -- the levels count children from `2 * pos`
    have hl : (levels (hashPair Hash) vTxid height)[2 * pos]? =
        some (CalcHash Hash vTxid.length vTxid height (pos * 2)) := by
      rw [Nat.mul_comm 2 pos]
      exact CalcHash_levels height (pos * 2) hleft
    simp only [CalcHash, CalcTreeWidth_eq]
    by_cases hright : pos * 2 + 1 < size vTxid.length height
    · -- a pair of children
      have hr : (levels (hashPair Hash) vTxid height)[2 * pos + 1]? =
          some (CalcHash Hash vTxid.length vTxid height (pos * 2 + 1)) := by
        rw [Nat.mul_comm 2 pos]
        exact CalcHash_levels height (pos * 2 + 1) hright
      rw [if_pos hright]
      exact getElem?_levels_succ_of_pair _ hl hr
    · -- the last node of an odd level, paired with itself
      rw [if_neg hright]
      exact getElem?_levels_succ_of_last _ hl (by rw [size] at hpos; omega)

/-- Distinct transactions under a hash with no collision within a level: two children of
one node never have the same hash. -/
theorem CalcHash_children_ne (hnd : vTxid.Nodup) (hcf : CollisionFree (hashPair Hash) vTxid)
    {height pos : Nat} (hright : pos * 2 + 1 < size vTxid.length height) :
    CalcHash Hash vTxid.length vTxid height (pos * 2 + 1) ≠ CalcHash Hash vTxid.length vTxid height (pos * 2) := by
  intro heq
  have hl := CalcHash_levels Hash vTxid height (pos * 2) (by omega)
  have hr := CalcHash_levels Hash vTxid height (pos * 2 + 1) hright
  rw [heq] at hr
  have := getElem?_levels_inj hcf hnd height (pos * 2) (pos * 2 + 1) _ hl hr
  omega

end Hashes

/-! ## What the constructor writes -/

section Build

variable (Hash : List UInt8 → UInt256) (n : Nat) (vTxid : List UInt256) (vMatch : List Bool)

/-- The bits and hashes that `TraverseAndBuild` writes for the subtree at `(height, pos)`. -/
def buildCode (height pos : Nat) : List Bool × List UInt256 :=
  TraverseAndBuild Hash n vTxid vMatch height pos ([], [])

/-- At a leaf, or above no match: the bit and the hash of the node. -/
theorem TraverseAndBuild_stop {height pos : Nat} (hstop : height = 0 ∨ parentOfMatch n vMatch height pos = false)
    (vBits : List Bool) (vHash : List UInt256) :
    TraverseAndBuild Hash n vTxid vMatch height pos (vBits, vHash) =
      (vBits ++ [parentOfMatch n vMatch height pos], vHash ++ [CalcHash Hash n vTxid height pos]) := by
  apply TraverseAndBuild.eq_2
  intro h heq hp
  rcases hstop with rfl | hf
  · exact Nat.succ_ne_zero h heq.symm
  · exact Bool.false_ne_true (hf ▸ hp)

/-- Above a match: the bit, then the walks of the children. -/
theorem TraverseAndBuild_descend {height pos : Nat} (hp : parentOfMatch n vMatch (height + 1) pos = true)
    (vBits : List Bool) (vHash : List UInt256) :
    TraverseAndBuild Hash n vTxid vMatch (height + 1) pos (vBits, vHash) =
      if pos * 2 + 1 < CalcTreeWidth n height then
        TraverseAndBuild Hash n vTxid vMatch height (pos * 2 + 1)
          (TraverseAndBuild Hash n vTxid vMatch height (pos * 2) (vBits ++ [true], vHash))
      else TraverseAndBuild Hash n vTxid vMatch height (pos * 2) (vBits ++ [true], vHash) := by
  rw [TraverseAndBuild.eq_1 Hash n vTxid vMatch pos vBits vHash height hp, hp]

/-- `TraverseAndBuild` appends the code of the subtree to what was written before. -/
theorem TraverseAndBuild_eq_append : ∀ height pos (vBits : List Bool) (vHash : List UInt256),
    TraverseAndBuild Hash n vTxid vMatch height pos (vBits, vHash) =
      (vBits ++ (buildCode Hash n vTxid vMatch height pos).1, vHash ++ (buildCode Hash n vTxid vMatch height pos).2)
  | height, pos, vBits, vHash => by
    by_cases hstop : height = 0 ∨ parentOfMatch n vMatch height pos = false
    · rw [buildCode, TraverseAndBuild_stop Hash n vTxid vMatch hstop, TraverseAndBuild_stop Hash n vTxid vMatch hstop]
      simp
    · obtain ⟨h, rfl⟩ : ∃ h, height = h + 1 := Nat.exists_eq_succ_of_ne_zero (by omega)
      have hp : parentOfMatch n vMatch (h + 1) pos = true := by simpa using hstop
      -- the walk of the left child, then that of the right child, each after the bits so far
      have hleft := TraverseAndBuild_eq_append h (pos * 2) (vBits ++ [true]) vHash
      have hleft0 := TraverseAndBuild_eq_append h (pos * 2) [true] []
      rw [buildCode, TraverseAndBuild_descend Hash n vTxid vMatch hp, TraverseAndBuild_descend Hash n vTxid vMatch hp,
        hleft, List.nil_append, hleft0]
      split
      · rw [TraverseAndBuild_eq_append h (pos * 2 + 1), TraverseAndBuild_eq_append h (pos * 2 + 1)]
        simp
      · simp

/-- The code of a subtree that stops at its root. -/
theorem buildCode_stop {height pos : Nat} (hstop : height = 0 ∨ parentOfMatch n vMatch height pos = false) :
    buildCode Hash n vTxid vMatch height pos =
      ([parentOfMatch n vMatch height pos], [CalcHash Hash n vTxid height pos]) := by
  rw [buildCode, TraverseAndBuild_stop Hash n vTxid vMatch hstop, List.nil_append, List.nil_append]

/-- The code of a node above a match with two children. -/
theorem buildCode_pair {height pos : Nat} (hp : parentOfMatch n vMatch (height + 1) pos = true)
    (hright : pos * 2 + 1 < CalcTreeWidth n height) :
    buildCode Hash n vTxid vMatch (height + 1) pos =
      (true :: ((buildCode Hash n vTxid vMatch height (pos * 2)).1 ++ (buildCode Hash n vTxid vMatch height (pos * 2 + 1)).1),
        (buildCode Hash n vTxid vMatch height (pos * 2)).2 ++ (buildCode Hash n vTxid vMatch height (pos * 2 + 1)).2) := by
  rw [buildCode, TraverseAndBuild_descend Hash n vTxid vMatch hp, if_pos hright, TraverseAndBuild_eq_append,
    TraverseAndBuild_eq_append]
  simp

/-- The code of a node above a match whose only child is the left one. -/
theorem buildCode_last {height pos : Nat} (hp : parentOfMatch n vMatch (height + 1) pos = true)
    (hright : ¬pos * 2 + 1 < CalcTreeWidth n height) :
    buildCode Hash n vTxid vMatch (height + 1) pos =
      (true :: (buildCode Hash n vTxid vMatch height (pos * 2)).1, (buildCode Hash n vTxid vMatch height (pos * 2)).2) := by
  rw [buildCode, TraverseAndBuild_descend Hash n vTxid vMatch hp, if_neg hright, TraverseAndBuild_eq_append]
  simp

/-- Each stored hash stands for leaves of its own, so there are at most as many hashes as
leaves. -/
theorem length_buildCode_hashes_le (height : Nat) : ∀ pos, pos < size n height →
    (buildCode Hash n vTxid vMatch height pos).2.length ≤ (leafRange n height pos).length := by
  induction height with
  | zero =>
    intro pos hpos
    rw [buildCode_stop Hash n vTxid vMatch (Or.inl rfl), List.length_singleton]
    exact length_leafRange_pos hpos
  | succ h ih =>
    intro pos hpos
    have hleft : pos * 2 < size n h := by
      rw [size] at hpos
      omega
    cases hp : parentOfMatch n vMatch (h + 1) pos with
    | false =>
      rw [buildCode_stop Hash n vTxid vMatch (Or.inr hp), List.length_singleton]
      exact length_leafRange_pos hpos
    | true =>
      have hl := ih (pos * 2) hleft
      rw [leafRange_succ, List.length_append]
      by_cases hright : pos * 2 + 1 < CalcTreeWidth n h
      · have hr := ih (pos * 2 + 1) (by rwa [CalcTreeWidth_eq] at hright)
        rw [buildCode_pair Hash n vTxid vMatch hp hright, List.length_append]
        omega
      · rw [buildCode_last Hash n vTxid vMatch hp hright]
        dsimp only
        omega

/-- Every node with a stored hash also has a bit. -/
theorem length_buildCode_hashes_le_bits (height : Nat) : ∀ pos,
    (buildCode Hash n vTxid vMatch height pos).2.length ≤ (buildCode Hash n vTxid vMatch height pos).1.length := by
  induction height with
  | zero =>
    intro pos
    rw [buildCode_stop Hash n vTxid vMatch (Or.inl rfl)]
    rfl
  | succ h ih =>
    intro pos
    cases hp : parentOfMatch n vMatch (h + 1) pos with
    | false =>
      rw [buildCode_stop Hash n vTxid vMatch (Or.inr hp)]
      rfl
    | true =>
      have hl := ih (pos * 2)
      by_cases hright : pos * 2 + 1 < CalcTreeWidth n h
      · have hr := ih (pos * 2 + 1)
        rw [buildCode_pair Hash n vTxid vMatch hp hright, List.length_append, List.length_cons, List.length_append]
        omega
      · rw [buildCode_last Hash n vTxid vMatch hp hright]
        dsimp only
        rw [List.length_cons]
        omega

/-- At most one bit for each node of the full subtree. -/
theorem length_buildCode_bits_lt (height : Nat) : ∀ pos,
    (buildCode Hash n vTxid vMatch height pos).1.length < 2 ^ (height + 1) := by
  induction height with
  | zero =>
    intro pos
    rw [buildCode_stop Hash n vTxid vMatch (Or.inl rfl), List.length_singleton]
    decide
  | succ h ih =>
    intro pos
    have hpow : 2 ^ (h + 1 + 1) = 2 * 2 ^ (h + 1) := by ring
    cases hp : parentOfMatch n vMatch (h + 1) pos with
    | false =>
      rw [buildCode_stop Hash n vTxid vMatch (Or.inr hp), List.length_singleton]
      exact Nat.one_lt_two_pow (by omega)
    | true =>
      have hl := ih (pos * 2)
      by_cases hright : pos * 2 + 1 < CalcTreeWidth n h
      · have hr := ih (pos * 2 + 1)
        rw [buildCode_pair Hash n vTxid vMatch hp hright, List.length_cons, List.length_append]
        omega
      · rw [buildCode_last Hash n vTxid vMatch hp hright]
        dsimp only
        rw [List.length_cons]
        omega

end Build

/-! ## Matched leaves -/

/-- The matched leaves below node `pos` at `height`, in order. -/
def matchedLeaves (n : Nat) (vMatch : List Bool) (height pos : Nat) : List Nat :=
  (leafRange n height pos).filter fun p => vMatch.getD p false

theorem matchedLeaves_succ (n : Nat) (vMatch : List Bool) (height pos : Nat) :
    matchedLeaves n vMatch (height + 1) pos =
      matchedLeaves n vMatch height (pos * 2) ++ matchedLeaves n vMatch height (pos * 2 + 1) := by
  rw [matchedLeaves, leafRange_succ, List.filter_append]
  rfl

/-- Below a node above no match nothing is matched. -/
theorem matchedLeaves_of_parentOfMatch {n : Nat} {vMatch : List Bool} {height pos : Nat}
    (h : parentOfMatch n vMatch height pos = false) : matchedLeaves n vMatch height pos = [] := by
  rw [parentOfMatch_eq, List.any_eq_false] at h
  exact List.filter_eq_nil_iff.mpr h

theorem matchedLeaves_zero {n : Nat} (vMatch : List Bool) {pos : Nat} (hpos : pos < n) :
    matchedLeaves n vMatch 0 pos = if vMatch.getD pos false then [pos] else [] := by
  rw [matchedLeaves, leafRange_zero hpos, List.filter_singleton, Bool.cond_eq_ite]

theorem parentOfMatch_zero {n : Nat} (vMatch : List Bool) {pos : Nat} (hpos : pos < n) :
    parentOfMatch n vMatch 0 pos = vMatch.getD pos false := by
  rw [parentOfMatch_eq, leafRange_zero hpos, List.any_cons, List.any_nil, Bool.or_false]

/-! ## Reading the walk back -/

/-- The state after a walk that read `nb` bits and `nh` hashes and matched the leaves
`idx`. -/
def ExtractState.advance (s : ExtractState) (vTxid : List UInt256) (nb nh : Nat) (idx : List Nat) :
    ExtractState :=
  { s with
    nBitsUsed := s.nBitsUsed + nb
    nHashUsed := s.nHashUsed + nh
    vMatch := s.vMatch ++ idx.map fun i => vTxid.getD i UInt256.zero
    vnIndex := s.vnIndex ++ idx }

theorem ExtractState.advance_advance (s : ExtractState) (vTxid : List UInt256) (a b c d : Nat) (i j : List Nat) :
    (s.advance vTxid a b i).advance vTxid c d j = s.advance vTxid (a + c) (b + d) (i ++ j) := by
  simp only [ExtractState.advance, List.map_append, List.append_assoc, Nat.add_assoc]

/-- Reading a flag bit is a walk of one bit. -/
theorem ExtractState.advance_bit (s : ExtractState) (vTxid : List UInt256) :
    { s with nBitsUsed := s.nBitsUsed + 1 } = s.advance vTxid 1 0 [] := by
  simp only [ExtractState.advance, Nat.add_zero, List.map_nil, List.append_nil]

/-- A code that starts the rest of a vector: its first item is the next one. -/
theorem prefix_drop_cons {α : Type} {c : α} {cs l : List α} {k : Nat} (d : α) (h : c :: cs <+: l.drop k) :
    k < l.length ∧ l.getD k d = c ∧ cs <+: l.drop (k + 1) := by
  obtain ⟨u, hu⟩ := h
  have hk : l[k]? = some c := by
    rw [← Nat.add_zero k, ← List.getElem?_drop, ← hu]
    rfl
  refine ⟨(List.getElem?_eq_some_iff.mp hk).1, by rw [List.getD_eq_getElem?_getD, hk]; rfl, ⟨u, ?_⟩⟩
  rw [← List.drop_drop, ← hu]
  rfl

/-- Two codes in a row: the second starts after the first. -/
theorem prefix_drop_append {α : Type} {a b l : List α} {k : Nat} (h : a ++ b <+: l.drop k) :
    a <+: l.drop k ∧ b <+: l.drop (k + a.length) := by
  obtain ⟨u, hu⟩ := h
  refine ⟨⟨b ++ u, by rw [← hu, List.append_assoc]⟩, ⟨u, ?_⟩⟩
  rw [← List.drop_drop, ← hu, List.append_assoc, List.drop_left]

section Extract

variable (Hash : List UInt8 → UInt256) (t : CPartialMerkleTree)

/-- At a leaf or below a `false` bit the walk takes a stored hash. -/
theorem TraverseAndExtract_stop {height pos : Nat} {s : ExtractState} (hb : s.nBitsUsed < t.vBits.length)
    (hstop : height = 0 ∨ t.vBits.getD s.nBitsUsed false = false) :
    TraverseAndExtract Hash t height pos s =
      useStoredHash t height pos (t.vBits.getD s.nBitsUsed false) { s with nBitsUsed := s.nBitsUsed + 1 } := by
  rw [TraverseAndExtract.eq_1, if_neg (not_le.mpr hb)]
  dsimp only
  rcases hstop with rfl | hf
  · rfl
  · rw [hf]
    cases height <;> rfl

/-- Below a `true` bit the walk descends into the children. -/
theorem TraverseAndExtract_descend {height pos : Nat} {s : ExtractState} (hb : s.nBitsUsed < t.vBits.length)
    (hbit : t.vBits.getD s.nBitsUsed false = true) :
    TraverseAndExtract Hash t (height + 1) pos s =
      match TraverseAndExtract Hash t height (pos * 2) { s with nBitsUsed := s.nBitsUsed + 1 } with
      | (left, s) =>
        if pos * 2 + 1 < CalcTreeWidth t.nTransactions height then
          match TraverseAndExtract Hash t height (pos * 2 + 1) s with
          | (right, s) => (hashPair Hash left right, if right = left then { s with fBad := true } else s)
        else (hashPair Hash left left, s) := by
  rw [TraverseAndExtract.eq_1, if_neg (not_le.mpr hb)]
  dsimp only
  rw [hbit]

/-- A stored hash that is there is read; with a set bit at a leaf it is a match. -/
theorem useStoredHash_eq {height pos : Nat} {f : Bool} {s : ExtractState} (hh : s.nHashUsed < t.vHash.length) :
    useStoredHash t height pos f s =
      (t.vHash.getD s.nHashUsed UInt256.zero,
        if height = 0 ∧ f = true then
          { s with
            nHashUsed := s.nHashUsed + 1
            vMatch := s.vMatch ++ [t.vHash.getD s.nHashUsed UInt256.zero]
            vnIndex := s.vnIndex ++ [pos] }
        else { s with nHashUsed := s.nHashUsed + 1 }) := by
  rw [useStoredHash, if_neg (not_le.mpr hh)]
  split <;> rfl

variable {Hash t} {vTxid : List UInt256} {vMatch : List Bool}

/-- The walk of `TraverseAndExtract` over the code that `TraverseAndBuild` wrote for the
subtree at `(height, pos)`: it returns the node's hash, reads exactly the bits and hashes
of the code and appends the matched leaves of the subtree in order. Induction on the
height; the two children of a node never have equal hashes, so `fBad` stays as it was. -/
theorem TraverseAndExtract_build (hnd : vTxid.Nodup) (hcf : CollisionFree (hashPair Hash) vTxid)
    (htn : t.nTransactions = vTxid.length) (height : Nat) :
    ∀ pos (s : ExtractState), pos < size vTxid.length height →
      (buildCode Hash vTxid.length vTxid vMatch height pos).1 <+: t.vBits.drop s.nBitsUsed →
      (buildCode Hash vTxid.length vTxid vMatch height pos).2 <+: t.vHash.drop s.nHashUsed →
      TraverseAndExtract Hash t height pos s =
        (CalcHash Hash vTxid.length vTxid height pos,
          s.advance vTxid (buildCode Hash vTxid.length vTxid vMatch height pos).1.length
            (buildCode Hash vTxid.length vTxid vMatch height pos).2.length
            (matchedLeaves vTxid.length vMatch height pos)) := by
  induction height with
  | zero =>
    -- a leaf: its bit and its transaction
    intro pos s hpos hbits hhashes
    have hn : pos < vTxid.length := hpos
    rw [buildCode_stop Hash _ vTxid vMatch (Or.inl rfl)] at hbits hhashes ⊢
    obtain ⟨hb, hbit, -⟩ := prefix_drop_cons false hbits
    obtain ⟨hh, hhash, -⟩ := prefix_drop_cons UInt256.zero hhashes
    rw [TraverseAndExtract_stop Hash t hb (Or.inl rfl), useStoredHash_eq (s := { s with nBitsUsed := s.nBitsUsed + 1 }) t hh, hbit, hhash,
      matchedLeaves_zero vMatch hn, parentOfMatch_zero vMatch hn]
    cases vMatch.getD pos false <;> simp [ExtractState.advance, CalcHash]
  | succ h ih =>
    intro pos s hpos hbits hhashes
    cases hp : parentOfMatch vTxid.length vMatch (h + 1) pos with
    | false =>
      -- above no match: the stored hash of the node
      rw [buildCode_stop Hash _ vTxid vMatch (Or.inr hp)] at hbits hhashes ⊢
      obtain ⟨hb, hbit, -⟩ := prefix_drop_cons false hbits
      obtain ⟨hh, hhash, -⟩ := prefix_drop_cons UInt256.zero hhashes
      rw [hp] at hbit
      rw [TraverseAndExtract_stop Hash t hb (Or.inr hbit), useStoredHash_eq (s := { s with nBitsUsed := s.nBitsUsed + 1 }) t hh, hhash,
        matchedLeaves_of_parentOfMatch hp, if_neg (fun h0 => Nat.succ_ne_zero h h0.1)]
      simp [ExtractState.advance]
    | true =>
      -- above a match: the walks of the children, left then right
      have hleft : pos * 2 < size vTxid.length h := by
        rw [size] at hpos
        omega
      have hwidth : CalcTreeWidth t.nTransactions h = size vTxid.length h := by rw [htn, CalcTreeWidth_eq]
      by_cases hright : pos * 2 + 1 < size vTxid.length h
      · rw [buildCode_pair Hash _ vTxid vMatch hp (by rwa [CalcTreeWidth_eq])] at hbits hhashes ⊢
        obtain ⟨hb, hbit, hbits'⟩ := prefix_drop_cons false hbits
        obtain ⟨hbl, hbr⟩ := prefix_drop_append hbits'
        obtain ⟨hhl, hhr⟩ := prefix_drop_append hhashes
        rw [TraverseAndExtract_descend Hash t hb hbit, ih (pos * 2) { s with nBitsUsed := s.nBitsUsed + 1 } hleft hbl hhl]
        dsimp only
        rw [if_pos (hwidth ▸ hright), ih (pos * 2 + 1) _ hright hbr hhr]
        dsimp only
        rw [if_neg (CalcHash_children_ne Hash vTxid hnd hcf hright)]
        have hhash : CalcHash Hash vTxid.length vTxid (h + 1) pos =
            hashPair Hash (CalcHash Hash vTxid.length vTxid h (pos * 2))
              (CalcHash Hash vTxid.length vTxid h (pos * 2 + 1)) := by
          simp only [CalcHash, CalcTreeWidth_eq, if_pos hright]
        rw [hhash, ExtractState.advance_bit s vTxid, ExtractState.advance_advance, ExtractState.advance_advance,
          matchedLeaves_succ, List.nil_append]
        congr 2
        · rw [List.length_cons, List.length_append]
          omega
        · rw [List.length_append]
          omega
      · -- no right child: the left one is paired with itself
        have hright' : ¬pos * 2 + 1 < CalcTreeWidth vTxid.length h := by rwa [CalcTreeWidth_eq]
        rw [buildCode_last Hash _ vTxid vMatch hp hright'] at hbits hhashes ⊢
        obtain ⟨hb, hbit, hbl⟩ := prefix_drop_cons false hbits
        rw [TraverseAndExtract_descend Hash t hb hbit,
          ih (pos * 2) { s with nBitsUsed := s.nBitsUsed + 1 } hleft hbl hhashes]
        dsimp only
        rw [if_neg (hwidth ▸ hright)]
        have hhash : CalcHash Hash vTxid.length vTxid (h + 1) pos =
            hashPair Hash (CalcHash Hash vTxid.length vTxid h (pos * 2))
              (CalcHash Hash vTxid.length vTxid h (pos * 2)) := by
          simp only [CalcHash, CalcTreeWidth_eq, if_neg hright]
        have hnone : matchedLeaves vTxid.length vMatch h (pos * 2 + 1) = [] := by
          rw [matchedLeaves, leafRange_of_size_le (by omega), List.filter_nil]
        rw [hhash, ExtractState.advance_bit s vTxid, ExtractState.advance_advance, matchedLeaves_succ, hnone,
          List.append_nil, List.nil_append]
        congr 2
        · rw [List.length_cons]
          omega
        · exact Nat.zero_add _

end Extract

/-! ## Packing the flag bits -/

/-- `b | (f << s)` has bit `i` when `b` has it, or when `f` is set and `i = s`. -/
theorem testBit_or_shiftLeft (b : UInt8) (f : Bool) {i s : Nat} (hs : s < 8) :
    (b ||| UInt8.ofNat (f.toNat <<< s)).toNat.testBit i = (b.toNat.testBit i || (f && decide (i = s))) := by
  rw [UInt8.toNat_or, Nat.testBit_or, UInt8.toNat_ofNat']
  cases f
  · rw [Bool.toNat_false, Nat.zero_shiftLeft, Nat.zero_mod, Nat.zero_testBit, Bool.false_and]
  · rw [Bool.toNat_true, Nat.one_shiftLeft, Nat.mod_eq_of_lt (Nat.pow_lt_pow_right (by decide) hs),
      Nat.testBit_two_pow, Bool.true_and]
    by_cases h : i = s
    · simp [h]
    · simp [h, Ne.symm h]

theorem length_foldl_packStep (vBits : List Bool) :
    ∀ (l : List Nat) (vBytes : List UInt8), (l.foldl (packStep vBits) vBytes).length = vBytes.length
  | [], _ => rfl
  | p :: l, vBytes => by
    rw [List.foldl_cons, length_foldl_packStep vBits l, packStep, List.length_modify]

theorem length_packBits (vBits : List Bool) : (packBits vBits).length = (vBits.length + 7) / 8 := by
  rw [packBits, length_foldl_packStep, List.length_replicate]

/-- After `k` passes of the packing loop, bit `i` of byte `j` holds
`vBits[8 * j + i]` if that bit was packed. Induction on `k`: the pass for bit `k` sets
only bit `k % 8` of byte `k / 8`. -/
theorem testBit_foldl_packStep (vBits : List Bool) {j i : Nat} (hi : i < 8) (hj : j < (vBits.length + 7) / 8) :
    ∀ k, (((List.range k).foldl (packStep vBits) (List.replicate ((vBits.length + 7) / 8) 0)).getD j 0).toNat.testBit i =
      (decide (8 * j + i < k) && vBits.getD (8 * j + i) false) := by
  intro k
  induction k with
  | zero =>
    rw [List.range_zero, List.foldl_nil, List.getD_replicate _ hj]
    simp
  | succ k ih =>
    have hlen : ((List.range k).foldl (packStep vBits) (List.replicate ((vBits.length + 7) / 8) 0)).length =
        (vBits.length + 7) / 8 := by
      rw [length_foldl_packStep, List.length_replicate]
    rw [List.range_succ, List.foldl_append, List.foldl_cons, List.foldl_nil, packStep,
      List.getD_eq_getElem?_getD, List.getElem?_modify, List.getElem?_eq_getElem (by omega)]
    dsimp only [Functor.map, Option.map_some, Option.getD_some]
    rw [← List.getD_eq_getElem _ 0 (by omega)]
    by_cases hk : k / 8 = j
    · -- the pass writes into this byte
      rw [if_pos hk, testBit_or_shiftLeft _ _ (Nat.mod_lt _ (by decide)), ih]
      by_cases hik : i = k % 8
      · have hpos : 8 * j + i = k := by omega
        rw [hpos]
        simp [hik]
      · have hpos : 8 * j + i ≠ k := by omega
        simp only [hik, decide_false, Bool.and_false, Bool.or_false]
        congr 1
        simp only [decide_eq_decide]
        omega
    · rw [if_neg hk, ih]
      have hpos : 8 * j + i ≠ k := by omega
      congr 1
      simp only [decide_eq_decide]
      omega

theorem toNat_mul_two_pow_bne_zero (b : Bool) (k : Nat) : (b.toNat * 2 ^ k != 0) = b := by
  cases b <;> simp

/-- Reading the packed bytes gives the bits back, then `false` up to a whole byte. -/
theorem unpackBits_packBits (vBits : List Bool) :
    unpackBits (packBits vBits) = vBits ++ List.replicate ((vBits.length + 7) / 8 * 8 - vBits.length) false := by
  have hround : vBits.length ≤ (vBits.length + 7) / 8 * 8 := by omega
  apply List.ext_getElem
  · rw [unpackBits, List.length_map, List.length_range, length_packBits, List.length_append, List.length_replicate]
    omega
  · intro p hp _
    have hp8 : p < (vBits.length + 7) / 8 * 8 := by
      rwa [unpackBits, List.length_map, List.length_range, length_packBits] at hp
    have hbyte : p / 8 < (vBits.length + 7) / 8 := by omega
    simp only [unpackBits, List.getElem_map, List.getElem_range]
    rw [Nat.one_shiftLeft, Nat.and_two_pow, packBits,
      testBit_foldl_packStep vBits (Nat.mod_lt _ (by decide)) hbyte, Nat.div_add_mod, toNat_mul_two_pow_bne_zero,
      List.getElem_append]
    split
    · next hlt => rw [decide_eq_true hlt, Bool.true_and, List.getD_eq_getElem _ false hlt]
    · next hge => rw [decide_eq_false hge, Bool.false_and, List.getElem_replicate]

/-! ## The wire format -/

/-- A tree read back from its bytes: the same count and hashes, the bits padded to a whole
byte, and `fBad` cleared. -/
theorem CPartialMerkleTree.Unserialize_Serialize (t : CPartialMerkleTree) (hn : t.nTransactions < 2 ^ 32)
    (hh : t.vHash.length ≤ MAX_SIZE) (hb : (t.vBits.length + 7) / 8 ≤ MAX_SIZE) (rest : List UInt8) :
    CPartialMerkleTree.Unserialize.run (t.Serialize ++ rest) =
      .ok (⟨t.nTransactions, t.vBits ++ List.replicate ((t.vBits.length + 7) / 8 * 8 - t.vBits.length) false,
        t.vHash, false⟩, rest) := by
  rw [CPartialMerkleTree.Unserialize, CPartialMerkleTree.Serialize, List.append_assoc, List.append_assoc,
    ser_readdata32_reads.run_bind trivial,
    (unserializeVector_reads unserializeUInt256_reads _ _).run_bind ⟨hh, fun _ _ => trivial⟩,
    unserializeBytes_reads.run_bind (by rw [length_packBits]; exact hb), unpackBits_packBits,
    UInt32.toNat_ofNat_of_lt' hn]
  rfl

/-- `ExtractMatches` when the size checks pass and the walk from the root ends with
`fBad` clear, every bit read but for the padding and every hash read: the root of the
walk and its matches. -/
theorem CPartialMerkleTree.ExtractMatches_of_walk (Hash : List UInt8 → UInt256) (t : CPartialMerkleTree)
    (m0 : List UInt256) (idx0 : List Nat) {height : Nat} {r : UInt256} {s : ExtractState}
    (hwalk : TraverseAndExtract Hash t height 0 ⟨0, 0, [], idx0, t.fBad⟩ = (r, s))
    (hheight : treeHeight t.nTransactions = height) (h0 : t.nTransactions ≠ 0)
    (hmax : t.nTransactions ≤ MAX_BLOCK_WEIGHT / MIN_TRANSACTION_WEIGHT) (hH : t.vHash.length ≤ t.nTransactions)
    (hB : t.vHash.length ≤ t.vBits.length) (hbad : s.fBad = false)
    (hbits : (s.nBitsUsed + 7) / 8 = (t.vBits.length + 7) / 8) (hhashes : s.nHashUsed = t.vHash.length) :
    (t.ExtractMatches Hash m0 idx0).1 = (r, s.vMatch, s.vnIndex) := by
  unfold CPartialMerkleTree.ExtractMatches
  rw [if_neg h0, if_neg (not_lt.mpr hmax), if_neg (not_lt.mpr hH), if_neg (not_lt.mpr hB)]
  dsimp only
  rw [hheight, hwalk]
  dsimp only
  rw [hbad, if_neg Bool.false_ne_true, if_neg (not_not.mpr hbits), if_neg (not_not.mpr hhashes)]

/-! ## The matches of a tree read back from its bytes -/

section ReadBack

variable {Hash : List UInt8 → UInt256} {vTxid : List UInt256} {vMatch : List Bool}

/-- `ExtractMatches` on the code of the whole tree, its bits padded to a whole byte: every
check passes, and the walk gives the root node, the matched transactions and their
positions. -/
theorem ExtractMatches_buildCode (hnd : vTxid.Nodup) (hcf : CollisionFree (hashPair Hash) vTxid)
    (hn : 0 < vTxid.length) (hmax : vTxid.length ≤ MAX_BLOCK_WEIGHT / MIN_TRANSACTION_WEIGHT)
    (m0 : List UInt256) (idx0 : List Nat) :
    (({ nTransactions := vTxid.length
        vBits := (buildCode Hash vTxid.length vTxid vMatch (treeHeight vTxid.length) 0).1 ++
          List.replicate (((buildCode Hash vTxid.length vTxid vMatch (treeHeight vTxid.length) 0).1.length + 7) / 8 * 8 -
            (buildCode Hash vTxid.length vTxid vMatch (treeHeight vTxid.length) 0).1.length) false
        vHash := (buildCode Hash vTxid.length vTxid vMatch (treeHeight vTxid.length) 0).2
        fBad := false } : CPartialMerkleTree).ExtractMatches Hash m0 idx0).1 =
      (CalcHash Hash vTxid.length vTxid (Nat.clog 2 vTxid.length) 0,
        (matchedLeaves vTxid.length vMatch (Nat.clog 2 vTxid.length) 0).map (fun i => vTxid.getD i UInt256.zero),
        idx0 ++ matchedLeaves vTxid.length vMatch (Nat.clog 2 vTxid.length) 0) := by
  rw [treeHeight_eq]
  have hroot : 0 < size vTxid.length (Nat.clog 2 vTxid.length) := lt_size_iff.mpr (by rw [Nat.zero_mul]; exact hn)
  -- at most one hash per leaf, and a bit for each hash
  have hH : (buildCode Hash vTxid.length vTxid vMatch (Nat.clog 2 vTxid.length) 0).2.length ≤ vTxid.length := by
    have hle := length_buildCode_hashes_le Hash vTxid.length vTxid vMatch _ 0 hroot
    rwa [leafRange_root, List.length_range] at hle
  have hHB := length_buildCode_hashes_le_bits Hash vTxid.length vTxid vMatch (Nat.clog 2 vTxid.length) 0
  have hwalk := @TraverseAndExtract_build Hash ⟨vTxid.length,
      (buildCode Hash vTxid.length vTxid vMatch (Nat.clog 2 vTxid.length) 0).1 ++
        List.replicate (((buildCode Hash vTxid.length vTxid vMatch (Nat.clog 2 vTxid.length) 0).1.length + 7) / 8 * 8 -
          (buildCode Hash vTxid.length vTxid vMatch (Nat.clog 2 vTxid.length) 0).1.length) false,
      (buildCode Hash vTxid.length vTxid vMatch (Nat.clog 2 vTxid.length) 0).2, false⟩ vTxid vMatch
    hnd hcf rfl (Nat.clog 2 vTxid.length) 0 ⟨0, 0, [], idx0, false⟩ hroot (List.prefix_append _ _) (List.prefix_refl _)
  have hbits : (0 + (buildCode Hash vTxid.length vTxid vMatch (Nat.clog 2 vTxid.length) 0).1.length + 7) / 8 =
      (((buildCode Hash vTxid.length vTxid vMatch (Nat.clog 2 vTxid.length) 0).1 ++
        List.replicate (((buildCode Hash vTxid.length vTxid vMatch (Nat.clog 2 vTxid.length) 0).1.length + 7) / 8 * 8 -
          (buildCode Hash vTxid.length vTxid vMatch (Nat.clog 2 vTxid.length) 0).1.length) false).length + 7) / 8 := by
    rw [List.length_append, List.length_replicate]
    omega
  rw [CPartialMerkleTree.ExtractMatches_of_walk Hash _ m0 idx0 hwalk (treeHeight_eq _) (Nat.pos_iff_ne_zero.mp hn)
    hmax hH (hHB.trans (List.sublist_append_left _ _).length_le) rfl hbits (Nat.zero_add _)]
  simp only [ExtractState.advance, List.nil_append]

end ReadBack

/-- The constructor stores the code of the whole tree. -/
theorem CPartialMerkleTree.ofMatches_eq (Hash : List UInt8 → UInt256) (vTxid : List UInt256) (vMatch : List Bool) :
    CPartialMerkleTree.ofMatches Hash vTxid vMatch =
      ⟨vTxid.length, (buildCode Hash vTxid.length vTxid vMatch (treeHeight vTxid.length) 0).1,
        (buildCode Hash vTxid.length vTxid vMatch (treeHeight vTxid.length) 0).2, false⟩ := rfl

/-- A partial Merkle tree built from distinct transactions, serialized and read back, gives
with `ExtractMatches` the Merkle root of `ComputeMerkleRoot`, the matched transactions and
their positions in increasing order (after what `vnIndex` held), for any size up to
`MAX_BLOCK_WEIGHT / MIN_TRANSACTION_WEIGHT` and a node hash with no collision within a
level. -/
theorem CPartialMerkleTree_ExtractMatches_round_trip (Hash : List UInt8 → UInt256) (vTxid : List UInt256)
    (vMatch : List Bool) (hnd : vTxid.Nodup) (hcf : CollisionFree (hashPair Hash) vTxid) (hn : 1 ≤ vTxid.length)
    (hmax : vTxid.length ≤ MAX_BLOCK_WEIGHT / MIN_TRANSACTION_WEIGHT) :
    ∃ T : CPartialMerkleTree,
      (∀ rest, CPartialMerkleTree.Unserialize.run ((CPartialMerkleTree.ofMatches Hash vTxid vMatch).Serialize ++ rest) =
        .ok (T, rest)) ∧
      ∃ r mutated, ComputeMerkleRoot Hash vTxid = some (r, mutated) ∧
        ∀ (m0 : List UInt256) (idx0 : List Nat),
          (T.ExtractMatches Hash m0 idx0).1 =
            (r, ((List.range vTxid.length).filter fun i => vMatch.getD i false).map fun i => vTxid.getD i UInt256.zero,
              idx0 ++ (List.range vTxid.length).filter fun i => vMatch.getD i false) := by
  have hbound : MAX_BLOCK_WEIGHT / MIN_TRANSACTION_WEIGHT = 16666 := rfl
  have hne : vTxid ≠ [] := List.ne_nil_of_length_pos hn
  obtain ⟨r, mutated, hcmr, hroot, -⟩ := ComputeMerkleRoot_correct Hash vTxid hne (by omega)
  have hpos : 0 < size vTxid.length (Nat.clog 2 vTxid.length) := lt_size_iff.mpr (by rw [Nat.zero_mul]; exact hn)
  -- the tree has height at most 15, so its code fits the wire limits
  have hheight : Nat.clog 2 vTxid.length ≤ 15 := Nat.clog_le_of_le_pow (by rw [hbound] at hmax; omega)
  have hbits := length_buildCode_bits_lt Hash vTxid.length vTxid vMatch (treeHeight vTxid.length) 0
  have hhashes := length_buildCode_hashes_le Hash vTxid.length vTxid vMatch (treeHeight vTxid.length) 0
    (by rwa [treeHeight_eq])
  rw [treeHeight_eq, leafRange_root, List.length_range] at hhashes
  rw [treeHeight_eq] at hbits
  have hpow : 2 ^ (Nat.clog 2 vTxid.length + 1) ≤ 2 ^ 16 := Nat.pow_le_pow_right (by decide) (by omega)
  refine ⟨⟨vTxid.length, (buildCode Hash vTxid.length vTxid vMatch (treeHeight vTxid.length) 0).1 ++
      List.replicate (((buildCode Hash vTxid.length vTxid vMatch (treeHeight vTxid.length) 0).1.length + 7) / 8 * 8 -
        (buildCode Hash vTxid.length vTxid vMatch (treeHeight vTxid.length) 0).1.length) false,
      (buildCode Hash vTxid.length vTxid vMatch (treeHeight vTxid.length) 0).2, false⟩,
    fun rest => ?_, r, mutated, hcmr, fun m0 idx0 => ?_⟩
  · rw [CPartialMerkleTree.ofMatches_eq]
    exact CPartialMerkleTree.Unserialize_Serialize _ (by dsimp only; omega) (by dsimp only; rw [treeHeight_eq]; unfold MAX_SIZE; omega)
      (by dsimp only; rw [treeHeight_eq]; unfold MAX_SIZE; omega) rest
  · -- the walk returns node 0 of the root level, which is the root
    have hcalc := CalcHash_levels Hash vTxid (Nat.clog 2 vTxid.length) 0 hpos
    rw [← root_eq _ hne, hroot, Option.some.injEq] at hcalc
    rw [ExtractMatches_buildCode hnd hcf hn hmax m0 idx0, matchedLeaves, leafRange_root, hcalc]

/-- A toy node hash for concrete trees: the last byte of the left node plus twice the last
byte of the right one. -/
def toyHash (bytes : List UInt8) : UInt256 :=
  ⟨List.replicate 31 0 ++ [bytes.getD 31 0 + 2 * bytes.getD 63 0], by simp⟩

/-- A transaction id that is zero but for its last byte. -/
def toyLeaf (k : UInt8) : UInt256 := ⟨List.replicate 31 0 ++ [k], by simp⟩

/-- The tree over three distinct leaves hashes its two pairs to different nodes. -/
theorem toyTree_collisionFree : CollisionFree (hashPair toyHash) [toyLeaf 1, toyLeaf 2, toyLeaf 3] :=
  collisionFree_of_nodup _ _ 2 _ rfl (by decide)

theorem CPartialMerkleTree_ExtractMatches_round_trip_three :
    [toyLeaf 1, toyLeaf 2, toyLeaf 3].Nodup ∧ CollisionFree (hashPair toyHash) [toyLeaf 1, toyLeaf 2, toyLeaf 3] ∧
      ∃ T : CPartialMerkleTree,
        (∀ rest, CPartialMerkleTree.Unserialize.run
          ((CPartialMerkleTree.ofMatches toyHash [toyLeaf 1, toyLeaf 2, toyLeaf 3] [true, false, true]).Serialize ++
            rest) = .ok (T, rest)) ∧
        ∃ r mutated, ComputeMerkleRoot toyHash [toyLeaf 1, toyLeaf 2, toyLeaf 3] = some (r, mutated) ∧
          ∀ (m0 : List UInt256) (idx0 : List Nat),
            (T.ExtractMatches toyHash m0 idx0).1 = (r, [toyLeaf 1, toyLeaf 3], idx0 ++ [0, 2]) :=
  ⟨by decide, toyTree_collisionFree,
    CPartialMerkleTree_ExtractMatches_round_trip toyHash _ [true, false, true] (by decide) toyTree_collisionFree
      (by decide) (by decide)⟩

end BitcoinPQ

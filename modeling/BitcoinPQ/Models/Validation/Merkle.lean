import BitcoinPQ.Core.MerkleTree
import BitcoinPQ.Models.Primitives.Transaction

/-!
# Merkle roots and branches

`consensus/merkle.cpp`. `MerkleComputation` computes the root, the mutation flag and
the branch of one leaf in constant space: it keeps, for each set bit `k` of the number
of leaves read, the root of the block of `2 ^ k` leaves that bit stands for, and
combines a new leaf with the stored roots at the levels where the count carries. A
final sweep pairs the last node of each odd level with itself and carries the result
up. `matchlevel` records the level of the stored root whose block holds the leaf of
the branch.

The specification is the tree of `MerkleTree`, level by level. The count is a
`uint32_t` and `1 << level` is undefined from `level = 32` on; the model returns `none`
there. Hashes are a parameter: `Hash` is double SHA-256 of a byte string.

The first pass keeps `LeafInv`: after `c` leaves the root stored at each set bit `k` of
`c` is the last complete node of level `k`. The sweep keeps `SweepInv`: the count is
the number of leaves rounded up to a multiple of `2 ^ level`. Up to `2 ^ 31` leaves the
computation returns the root, the flag and the branch (`MerkleComputation_eq`); the flag
only compares complete pairs, which is the same as comparing all pairs when the hash has
no collision within a level. From `2 ^ 31 + 1` leaves on the sweep rounds the count up
to `2 ^ 32`, which wraps to `0`, and no root comes out.
-/

namespace BitcoinPQ

open MerkleTree

/-- `CHash256().Write(a).Write(b).Finalize()`, also `Hash(a, b)`: the hash of the 64 bytes. -/
def hashPair (Hash : List UInt8 → UInt256) (a b : UInt256) : UInt256 := Hash (a.data ++ b.data)

/-- What the levels loops carry: the running hash, whether it depends on the leaf at
`branchpos`, the mutation flag and the branch so far. -/
structure MerkleClimb where
  h : UInt256
  matchh : Bool
  mutated : Bool
  branch : List UInt256

/-- The state of the first pass: the count of leaves read, the stored roots by level,
`matchlevel`, the mutation flag and the branch. -/
structure MerkleState where
  count : Nat
  inner : Nat → UInt256
  matchlevel : Int
  mutated : Bool
  branch : List UInt256

/-- The levels loop: while bit `level` of `count` is `0`, `h` is combined with the root
stored at that level. The first pass compares the two hashes it combines (`compare`),
the final sweep does not. Each pass raises `level`, so 33 passes are enough. -/
def climbLoop (Hash : List UInt8 → UInt256) (compare : Bool) (count : Nat) (inner : Nat → UInt256)
    (matchlevel : Int) : Nat → Nat → MerkleClimb → Option (Nat × MerkleClimb)
  | 0, _, _ => none
  | fuel + 1, level, c =>
    if level ≥ 32 then none
    else if count.testBit level then some (level, c)
    else
      let branch :=
        if c.matchh then c.branch ++ [inner level]
        else if matchlevel = level then c.branch ++ [c.h] else c.branch
      climbLoop Hash compare count inner matchlevel fuel (level + 1)
        ⟨hashPair Hash (inner level) c.h, c.matchh || decide (matchlevel = level),
          c.mutated || compare && inner level == c.h, branch⟩

/-- The first pass, one leaf after the other. `count` is a `uint32_t`. -/
def leafLoop (Hash : List UInt8 → UInt256) (branchpos : Nat) : List UInt256 → MerkleState → Option MerkleState
  | [], s => some s
  | leaf :: leaves, s =>
    let matchh := decide (s.count = branchpos)
    let count := (s.count + 1) % 2 ^ 32
    match climbLoop Hash true count s.inner s.matchlevel 33 0 ⟨leaf, matchh, s.mutated, s.branch⟩ with
    | some (level, c) =>
      leafLoop Hash branchpos leaves
        ⟨count, Function.update s.inner level c.h, if c.matchh then level else s.matchlevel, c.mutated,
          c.branch⟩
    | none => none

/-- The lowest set bit of `count`, from `level` up. -/
def lowestLevel (count : Nat) : Nat → Nat → Option Nat
  | 0, _ => none
  | fuel + 1, level =>
    if level ≥ 32 then none
    else if count.testBit level then some level
    else lowestLevel count fuel (level + 1)

/-- The final sweep: until `count` is `1 << level`, the hash at `level` is combined with
itself, `count` gains the `1 << level` leaves this stands for, and the result is carried
up. -/
def sweepLoop (Hash : List UInt8 → UInt256) (inner : Nat → UInt256) (matchlevel : Int) :
    Nat → Nat → Nat → MerkleClimb → Option MerkleClimb
  | 0, _, _, _ => none
  | fuel + 1, count, level, c =>
    if level ≥ 32 then none
    else if count = 2 ^ level then some c
    else
      let branch := if c.matchh then c.branch ++ [c.h] else c.branch
      let count := (count + 2 ^ level) % 2 ^ 32
      match climbLoop Hash false count inner matchlevel 33 (level + 1)
          ⟨hashPair Hash c.h c.h, c.matchh, c.mutated, branch⟩ with
      | some (level, c) => sweepLoop Hash inner matchlevel fuel count level c
      | none => none

/-- `MerkleComputation`: the root, the mutation flag and the branch of the leaf at
`branchpos`. The source builds the branch only when asked for it; it depends on nothing
the root and the flag depend on. -/
def MerkleComputation (Hash : List UInt8 → UInt256) (leaves : List UInt256) (branchpos : UInt32) :
    Option (UInt256 × Bool × List UInt256) :=
  if leaves.length = 0 then some (UInt256.zero, false, [])
  else do
    let s ← leafLoop Hash branchpos.toNat leaves ⟨0, fun _ => UInt256.zero, -1, false, []⟩
    let level ← lowestLevel s.count 33 0
    let c ← sweepLoop Hash s.inner s.matchlevel 33 s.count level
      ⟨s.inner level, decide (s.matchlevel = level), s.mutated, s.branch⟩
    pure (c.h, c.mutated, c.branch)

/-- `ComputeMerkleRoot`: the root and the mutation flag. -/
def ComputeMerkleRoot (Hash : List UInt8 → UInt256) (leaves : List UInt256) : Option (UInt256 × Bool) :=
  (MerkleComputation Hash leaves 0xFFFFFFFF).map fun r => (r.1, r.2.1)

/-- `ComputeMerkleBranch`. -/
def ComputeMerkleBranch (Hash : List UInt8 → UInt256) (leaves : List UInt256) (position : UInt32) :
    Option (List UInt256) :=
  (MerkleComputation Hash leaves position).map fun r => r.2.2

/-- `ComputeMerkleRootFromBranch`. -/
def ComputeMerkleRootFromBranch (Hash : List UInt8 → UInt256) (hash : UInt256) :
    List UInt256 → UInt32 → UInt256
  | [], _ => hash
  | it :: vMerkleBranch, nIndex =>
    ComputeMerkleRootFromBranch Hash (if nIndex &&& 1 != 0 then hashPair Hash it hash else hashPair Hash hash it)
      vMerkleBranch (nIndex >>> 1)

/-! ## The root from a branch -/

/-- `ComputeMerkleRootFromBranch` goes up the path of the leaf with the siblings given. -/
theorem ComputeMerkleRootFromBranch_eq (Hash : List UInt8 → UInt256) :
    ∀ (branch : List UInt256) (hash : UInt256) (nIndex : UInt32),
      ComputeMerkleRootFromBranch Hash hash branch nIndex = pathRoot (hashPair Hash) hash branch nIndex.toNat
  | [], _, _ => rfl
  | it :: branch, hash, nIndex => by
    have hodd : (nIndex &&& 1 != 0) = decide (nIndex.toNat % 2 = 1) := by
      have h : (nIndex &&& 1).toNat = nIndex.toNat % 2 := by
        rw [UInt32.toNat_and]
        exact Nat.and_one_is_mod _
      rw [Bool.eq_iff_iff, bne_iff_ne, decide_eq_true_iff, ne_eq, ← UInt32.toNat_inj, h, UInt32.toNat_zero]
      omega
    have hhalf : (nIndex >>> 1).toNat = nIndex.toNat / 2 := by
      rw [UInt32.toNat_shiftRight]
      rfl
    rw [ComputeMerkleRootFromBranch, pathRoot, ComputeMerkleRootFromBranch_eq Hash branch, hhalf]
    simp only [hodd, decide_eq_true_eq]

/-! ## The levels loop -/

section Climb

variable (Hash : List UInt8 → UInt256) (l : List UInt256) (p : Nat)

/-- The first `k` entries of the branch of the leaf at `p`: the sibling of its node at
each level. -/
def IsBranchPrefix (branch : List UInt256) (k : Nat) : Prop :=
  branch.length = k ∧
    ∀ t < k, branch[t]? = (levels (hashPair Hash) l t)[siblingIndex (size l.length t) (p / 2 ^ t)]?

/-- The node at `i` of level `j` is on the path of the leaf at `p`. -/
def OnPath (j i : Nat) : Prop := p < l.length ∧ p / 2 ^ j = i

theorem IsBranchPrefix.push {branch : List UInt256} {k : Nat} (hb : IsBranchPrefix Hash l p branch k) {s : UInt256}
    (hs : (levels (hashPair Hash) l k)[siblingIndex (size l.length k) (p / 2 ^ k)]? = some s) :
    IsBranchPrefix Hash l p (branch ++ [s]) (k + 1) := by
  refine ⟨by rw [List.length_append, hb.1]; rfl, fun t ht => ?_⟩
  rcases Nat.lt_succ_iff_lt_or_eq.mp ht with ht | rfl
  · rw [List.getElem?_append_left (by rw [hb.1]; exact ht)]
    exact hb.2 t ht
  · rw [List.getElem?_append_right (by rw [hb.1]), hb.1, Nat.sub_self, hs]
    rfl

/-- On the path, the node above `i` is `i / 2`; off it, the node above is off it too when
the sibling is off it. -/
theorem onPath_succ_iff {j i : Nat} (hodd : i % 2 = 1) :
    OnPath l p (j + 1) (i / 2) ↔ OnPath l p j i ∨ OnPath l p j (i - 1) := by
  unfold OnPath
  rw [Nat.pow_succ, ← Nat.div_div_eq_div_mul]
  omega

/-- The levels loop: from level `j`, through the levels where `count` has a `0` bit, up to
`t`, the first level with a `1`. At each of those levels the node `idx` of the running
hash is a right child whose left sibling is stored; the running hash becomes the node
above, compared with its sibling in the first pass, and the branch takes the sibling
of each node of the path it meets. -/
theorem climbLoop_spec (compare : Bool) (count : Nat) (inner : Nat → UInt256) (ml : Int) (idx : Nat → Nat)
    (t : Nat) (ht : t < 32) (hbit : count.testBit t) :
    ∀ (fuel j : Nat) (c : MerkleClimb), j ≤ t → t - j < fuel →
      (∀ j', j ≤ j' → j' < t → count.testBit j' = false ∧ idx j' % 2 = 1 ∧ idx (j' + 1) = idx j' / 2 ∧
        (levels (hashPair Hash) l j')[idx j' - 1]? = some (inner j') ∧
        (ml = j' ↔ OnPath l p j' (idx j' - 1))) →
      (levels (hashPair Hash) l j)[idx j]? = some c.h →
      (c.matchh = true ↔ OnPath l p j (idx j)) →
      (c.matchh = true → IsBranchPrefix Hash l p c.branch j) →
      (∀ k : Nat, ml = k → c.matchh = false → IsBranchPrefix Hash l p c.branch k) →
      ∃ c', climbLoop Hash compare count inner ml fuel j c = some (t, c') ∧
        (levels (hashPair Hash) l t)[idx t]? = some c'.h ∧
        (c'.matchh = true ↔ OnPath l p t (idx t)) ∧
        (c'.mutated = true ↔ c.mutated = true ∨ compare = true ∧ ∃ j', j ≤ j' ∧ j' < t ∧
          ∃ x, (levels (hashPair Hash) l j')[idx j' - 1]? = some x ∧ (levels (hashPair Hash) l j')[idx j']? = some x) ∧
        (c'.matchh = true → IsBranchPrefix Hash l p c'.branch t) ∧
        (c'.matchh = true ↔ c.matchh = true ∨ ∃ j' : Nat, j ≤ j' ∧ j' < t ∧ ml = j') ∧
        (c'.matchh = false → c'.branch = c.branch) := by
  intro fuel
  induction fuel with
  | zero => intro j c _ hfuel; omega
  | succ fuel ih =>
    intro j c hjt hfuel hpass hh hmatch hbranch hml
    by_cases hjt' : j = t
    · -- the first level with a set bit: the loop stops
      subst hjt'
      refine ⟨c, ?_, hh, hmatch, ?_, hbranch, ?_, fun _ => rfl⟩
      · rw [climbLoop, if_neg (by omega), if_pos hbit]
      · constructor
        · exact Or.inl
        · rintro (h | ⟨_, j', hj, hj', _⟩)
          · exact h
          · omega
      · constructor
        · exact Or.inl
        · rintro (h | ⟨j', hj, hj', _⟩)
          · exact h
          · omega
    · -- a level with a `0` bit: combine with the stored left sibling
      obtain ⟨hb0, hodd, hidx, hinner, hmlj⟩ := hpass j le_rfl (by omega)
      have hsize : idx j < size l.length j := by
        have := (List.getElem?_eq_some_iff.mp hh).1
        rwa [length_levels] at this
      have hup : (levels (hashPair Hash) l (j + 1))[idx (j + 1)]? = some (hashPair Hash (inner j) c.h) := by
        rw [hidx]
        exact getElem?_levels_succ_of_pair (hashPair Hash)
          (by rw [show 2 * (idx j / 2) = idx j - 1 by omega]; exact hinner)
          (by rw [show 2 * (idx j / 2) + 1 = idx j by omega]; exact hh)
      -- the sibling of the node on the path at this level
      have hsibR : siblingIndex (size l.length j) (idx j) = idx j - 1 := by
        simp [siblingIndex, hodd]
      have hsibL : siblingIndex (size l.length j) (idx j - 1) = idx j := by
        have h1 : (idx j - 1) % 2 = 0 := by omega
        simp only [siblingIndex, h1, zero_ne_one, if_false]
        rw [if_pos (by omega)]
        omega
      obtain ⟨c', hloop, hh', hmatch', hmut', hbranch', hfrom', hsame'⟩ := ih (j + 1)
        ⟨hashPair Hash (inner j) c.h, c.matchh || decide (ml = j), c.mutated || compare && inner j == c.h,
          if c.matchh then c.branch ++ [inner j] else if ml = j then c.branch ++ [c.h] else c.branch⟩
        (by omega) (by omega) (fun j' h1 h2 => hpass j' (by omega) h2) hup
        (by
          rw [Bool.or_eq_true, decide_eq_true_iff, hmatch, hmlj, hidx, onPath_succ_iff l p hodd])
        (by
          intro hm
          by_cases hc : c.matchh = true
          · simp only [hc, if_true]
            refine (hbranch hc).push Hash l p ?_
            obtain ⟨-, hp⟩ := hmatch.mp hc
            rw [hp, hsibR]
            exact hinner
          · have hc' : c.matchh = false := by simpa using hc
            have hmj : ml = j := by simpa [hc'] using hm
            simp only [hc', Bool.false_eq_true, if_false, if_pos hmj]
            refine (hml j hmj hc').push Hash l p ?_
            obtain ⟨-, hp⟩ := hmlj.mp hmj
            rw [hp, hsibL]
            exact hh)
        (by
          intro k hk hm
          simp only [Bool.or_eq_false_iff, decide_eq_false_iff_not] at hm
          simp only [hm.1, Bool.false_eq_true, if_false, if_neg hm.2]
          exact hml k hk hm.1)
      refine ⟨c', ?_, hh', hmatch', ?_, hbranch', ?_, fun hf => ?_⟩
      · rw [climbLoop, if_neg (by omega), if_neg (by simp [hb0]), ← hloop]
      · rw [hmut']
        simp only [Bool.or_eq_true, Bool.and_eq_true, beq_iff_eq]
        constructor
        · rintro ((h | ⟨hc, heq⟩) | ⟨hc, j', hj, hj', x, hx, hx'⟩)
          · exact Or.inl h
          · exact Or.inr ⟨hc, j, le_rfl, by omega, c.h, heq ▸ hinner, hh⟩
          · exact Or.inr ⟨hc, j', by omega, hj', x, hx, hx'⟩
        · rintro (h | ⟨hc, j', hj, hj', x, hx, hx'⟩)
          · exact Or.inl (Or.inl h)
          · rcases Nat.lt_or_ge j j' with hlt | hle
            · exact Or.inr ⟨hc, j', hlt, hj', x, hx, hx'⟩
            · obtain rfl : j' = j := by omega
              rw [hinner, Option.some.injEq] at hx
              rw [hh, Option.some.injEq] at hx'
              exact Or.inl (Or.inr ⟨hc, hx.trans hx'.symm⟩)
      · rw [hfrom', Bool.or_eq_true, decide_eq_true_iff]
        constructor
        · rintro ((h | h) | ⟨j', hj, hj', h⟩)
          · exact Or.inl h
          · exact Or.inr ⟨j, le_rfl, by omega, h⟩
          · exact Or.inr ⟨j', by omega, hj', h⟩
        · rintro (h | ⟨j', hj, hj', h⟩)
          · exact Or.inl (Or.inl h)
          · rcases Nat.lt_or_ge j j' with hlt | hle
            · exact Or.inr ⟨j', hlt, hj', h⟩
            · obtain rfl : j' = j := by omega
              exact Or.inl (Or.inr h)
      · -- no match yet at this level either, so the branch was left alone
        have hm : (c.matchh || decide (ml = j)) = false := by
          cases hmm : (c.matchh || decide (ml = j))
          · rfl
          · rw [hfrom'.mpr (Or.inl hmm)] at hf
            exact absurd hf (by decide)
        rw [hsame' hf]
        simp only [Bool.or_eq_false_iff, decide_eq_false_iff_not] at hm
        simp only [hm.1, Bool.false_eq_true, if_false, if_neg hm.2]

end Climb

/-! ## The stored roots -/

section Stored

variable (Hash : List UInt8 → UInt256) (l : List UInt256) (p : Nat)

/-- The roots stored for the set bits `k ≥ b` of a count `y`: node `y / 2 ^ k - 1` of
level `k`, the last complete node of the level, and `matchlevel` is `k` when that node
is on the path of the leaf at `p`. -/
def Stored (inner : Nat → UInt256) (ml : Int) (y b : Nat) : Prop :=
  ∀ k, b ≤ k → y.testBit k = true →
    (levels (hashPair Hash) l k)[y / 2 ^ k - 1]? = some (inner k) ∧ (ml = k ↔ OnPath l p k (y / 2 ^ k - 1))

variable {Hash l p} {inner : Nat → UInt256} {ml : Int} {y a b t : Nat}

/-- Adding `2 ^ a` leaves: at each level the carry passes, the running node is a right
child, its left sibling is the stored root, and `matchlevel` names the level if that
sibling is on the path. -/
theorem Stored.pass (hst : Stored Hash l p inner ml y b) (hy : 2 ^ a ∣ y) (hab : a ≤ b)
    (hlow : ∀ j < t, (y + 2 ^ a).testBit j = false) (hbit : (y + 2 ^ a).testBit t = true) :
    ∀ j', b ≤ j' → j' < t → (y + 2 ^ a).testBit j' = false ∧ ((y + 2 ^ a) / 2 ^ j' - 1) % 2 = 1 ∧
      (y + 2 ^ a) / 2 ^ (j' + 1) - 1 = ((y + 2 ^ a) / 2 ^ j' - 1) / 2 ∧
      (levels (hashPair Hash) l j')[(y + 2 ^ a) / 2 ^ j' - 1 - 1]? = some (inner j') ∧
      (ml = j' ↔ OnPath l p j' ((y + 2 ^ a) / 2 ^ j' - 1 - 1)) := by
  intro j hbj hjt
  have hq := add_two_pow_div_of_le hy hlow (hab.trans hbj) hjt.le
  obtain ⟨heven, htwo⟩ := div_two_pow_even_of_lt hlow hbit hjt
  have hhalf : (y + 2 ^ a) / 2 ^ (j + 1) = (y + 2 ^ a) / 2 ^ j / 2 := by
    rw [Nat.pow_succ, Nat.div_div_eq_div_mul]
  have hidx : (y + 2 ^ a) / 2 ^ j - 1 - 1 = y / 2 ^ j - 1 := by omega
  obtain ⟨hin, hml⟩ := hst j hbj (testBit_of_lt_carry hy hlow hbit (hab.trans hbj) hjt)
  refine ⟨hlow j hjt, by omega, by rw [hhalf]; omega, ?_, ?_⟩
  · rw [hidx]
    exact hin
  · rw [hidx]
    exact hml

/-- Above the carry neither the bits nor the stored roots change. -/
theorem Stored.carry (hst : Stored Hash l p inner ml y b) (hy : 2 ^ a ∣ y)
    (hbit : (y + 2 ^ a).testBit t = true) (hb : b ≤ t + 1) :
    Stored Hash l p inner ml (y + 2 ^ a) (t + 1) := by
  intro k hk hkbit
  rw [testBit_add_two_pow_of_lt hy hbit hk] at hkbit
  rw [add_two_pow_div_of_lt hy hbit hk]
  exact hst k (hb.trans hk) hkbit

/-- The leaf at `p` lies under one stored root only: under the root of the carry level
`t`, it lies under none of the roots above. -/
theorem not_onPath_above_carry (hy : 2 ^ a ∣ y) (hlow : ∀ j < t, (y + 2 ^ a).testBit j = false)
    (hbit : (y + 2 ^ a).testBit t = true) (hat : a ≤ t) (hpt : OnPath l p t ((y + 2 ^ a) / 2 ^ t - 1))
    {k : Nat} (hk : t < k) (hkbit : (y + 2 ^ a).testBit k = true) :
    ¬ OnPath l p k ((y + 2 ^ a) / 2 ^ k - 1) := by
  rintro ⟨-, hpk⟩
  obtain ⟨-, hpt⟩ := hpt
  rw [add_two_pow_div_of_le hy hlow hat le_rfl, Nat.add_sub_cancel] at hpt
  -- the leaf and the count agree from bit `t` up
  have hdiv : p / 2 ^ k = y / 2 ^ k := by
    have hpow : 2 ^ k = 2 ^ t * 2 ^ (k - t) := by rw [← Nat.pow_add, Nat.add_sub_cancel' hk.le]
    rw [hpow, ← Nat.div_div_eq_div_mul, ← Nat.div_div_eq_div_mul, hpt]
  have hpos : 1 ≤ (y + 2 ^ a) / 2 ^ k := (Nat.le_div_iff_mul_le (Nat.two_pow_pos k)).mpr (by
    rw [Nat.one_mul]
    exact Nat.ge_two_pow_of_testBit hkbit)
  rw [add_two_pow_div_of_lt hy hbit hk] at hpk hpos
  omega

end Stored

/-! ## The first pass -/

section FirstPass

variable (Hash : List UInt8 → UInt256) (l : List UInt256) (p : Nat)

/-- What the first pass knows after `c` leaves: the roots of `Stored` for every set bit
of `c`, `matchlevel` a set bit of `c` or no level at all, the branch the siblings below
`matchlevel` (empty while no stored root is on the path), and the flag whether two equal
nodes of a complete pair were hashed. -/
structure LeafInv (s : MerkleState) (c : Nat) : Prop where
  count : s.count = c
  stored : Stored Hash l p s.inner s.matchlevel c 0
  matchlevel_bit : ∀ k : Nat, s.matchlevel = k → c.testBit k = true
  branch : ∀ k : Nat, s.matchlevel = k → IsBranchPrefix Hash l p s.branch k
  branch_nil : (∀ k : Nat, s.matchlevel ≠ k) → s.branch = []
  mutated : s.mutated = true ↔ ∃ j i x, (i + 1) * 2 ^ (j + 1) ≤ c ∧
    (levels (hashPair Hash) l j)[2 * i]? = some x ∧ (levels (hashPair Hash) l j)[2 * i + 1]? = some x

theorem leafInv_zero : LeafInv Hash l p ⟨0, fun _ => UInt256.zero, -1, false, []⟩ 0 where
  count := rfl
  stored k _ hk := by simp at hk
  matchlevel_bit k hk := by dsimp only at hk; omega
  branch k hk := by dsimp only at hk; omega
  branch_nil _ := rfl
  mutated := by
    simp only [Bool.false_eq_true, false_iff, not_exists, not_and]
    intro j i x h
    have : 0 < (i + 1) * 2 ^ (j + 1) := Nat.mul_pos (Nat.succ_pos i) (Nat.two_pow_pos (j + 1))
    omega

variable {Hash l p}

/-- Before the leaf at `p` is read no stored root is on its path, so the branch is
empty. -/
theorem LeafInv.branch_eq_nil {s : MerkleState} {c : Nat} (hinv : LeafInv Hash l p s c) (hp : p = c) :
    s.branch = [] := by
  apply hinv.branch_nil
  intro k hk
  have hkbit := hinv.matchlevel_bit k hk
  obtain ⟨-, hpk⟩ := ((hinv.stored k (Nat.zero_le k) hkbit).2.mp hk)
  have hpos : 1 ≤ c / 2 ^ k := (Nat.le_div_iff_mul_le (Nat.two_pow_pos k)).mpr (by
    rw [Nat.one_mul]
    exact Nat.ge_two_pow_of_testBit hkbit)
  rw [hp] at hpk
  omega

/-- One leaf of the first pass: leaf `c` climbs while the count carries, is stored at the
lowest set bit of `c + 1`, and the invariant holds of `c + 1` leaves. -/
theorem LeafInv.step {s : MerkleState} {c : Nat} (hinv : LeafInv Hash l p s c) {leaf : UInt256}
    (hleaf : l[c]? = some leaf) (hc32 : c + 1 < 2 ^ 32) (rest : List UInt256) :
    ∃ s', LeafInv Hash l p s' (c + 1) ∧ leafLoop Hash p (leaf :: rest) s = leafLoop Hash p rest s' := by
  obtain ⟨t, hbit, hlow⟩ := exists_lowest_testBit (show c + 1 ≠ 0 by omega)
  -- the carry lemmas are stated for `c + 2 ^ 0`
  have hy : 2 ^ 0 ∣ c := Nat.one_dvd c
  have hbit0 : (c + 2 ^ 0).testBit t = true := hbit
  have hlow0 : ∀ j < t, (c + 2 ^ 0).testBit j = false := hlow
  have ht32 : t < 32 :=
    (Nat.pow_lt_pow_iff_right (by decide)).mp (lt_of_le_of_lt (Nat.ge_two_pow_of_testBit hbit) hc32)
  have hc : c < l.length := (List.getElem?_eq_some_iff.mp hleaf).1
  obtain ⟨c', hloop, hh', hmatch', hmut', hbranch', hfrom', hsame'⟩ :=
    climbLoop_spec Hash l p true (c + 1) s.inner s.matchlevel (fun j => (c + 1) / 2 ^ j - 1) t ht32 hbit 33 0
      ⟨leaf, decide (s.count = p), s.mutated, s.branch⟩ (Nat.zero_le t) (by omega)
      (fun j' _ hj' => hinv.stored.pass hy le_rfl hlow0 hbit0 j' (Nat.zero_le j') hj')
      (by simpa using hleaf)
      (by
        rw [decide_eq_true_iff, hinv.count]
        simp only [OnPath, Nat.pow_zero, Nat.div_one, Nat.add_sub_cancel]
        constructor
        · rintro rfl
          exact ⟨hc, rfl⟩
        · rintro ⟨-, rfl⟩
          rfl)
      (by
        intro hm
        rw [decide_eq_true_iff, hinv.count] at hm
        rw [hinv.branch_eq_nil hm.symm]
        exact ⟨rfl, fun _ h => absurd h (Nat.not_lt_zero _)⟩)
      (fun k hk _ => hinv.branch k hk)
  simp only at hh' hmatch' hmut' hbranch' hfrom' hsame'
  have hcarry : c.testBit t = false := testBit_carry hy hlow0 hbit0 (Nat.zero_le t)
  -- `matchlevel` stays below the carry only if the climb met it
  have hml_lt : ∀ k : Nat, k < t → s.matchlevel = k → c'.matchh = true :=
    fun k hk h => hfrom'.mpr (Or.inr ⟨k, Nat.zero_le k, hk, h⟩)
  refine ⟨⟨c + 1, Function.update s.inner t c'.h, if c'.matchh then t else s.matchlevel, c'.mutated,
    c'.branch⟩, ⟨rfl, ?_, ?_, ?_, ?_, ?_⟩, ?_⟩
  · -- the stored roots: the new one at `t`, the old ones above
    dsimp only
    intro k _ hk
    rcases lt_trichotomy k t with hkt | rfl | hkt
    · rw [hlow k hkt] at hk
      exact absurd hk Bool.false_ne_true
    · refine ⟨by rw [Function.update_self]; exact hh', ?_⟩
      by_cases hm : c'.matchh = true
      · simp only [hm, if_true, true_iff]
        exact hmatch'.mp hm
      · rw [if_neg hm]
        constructor
        · intro h
          rw [hinv.matchlevel_bit k h] at hcarry
          exact absurd hcarry (by decide)
        · intro h
          exact absurd (hmatch'.mpr h) hm
    · rw [Function.update_of_ne (Nat.ne_of_gt hkt)]
      obtain ⟨hin, hml⟩ := hinv.stored.carry hy hbit0 (Nat.zero_le _) k hkt hk
      refine ⟨hin, ?_⟩
      by_cases hm : c'.matchh = true
      · rw [if_pos hm]
        constructor
        · intro h
          omega
        · intro hon
          exact absurd hon (not_onPath_above_carry hy hlow0 hbit0 (Nat.zero_le t) (hmatch'.mp hm) hkt hk)
      · rw [if_neg hm]
        exact hml
  · -- `matchlevel` is a set bit of `c + 1`
    dsimp only
    intro k hk
    by_cases hm : c'.matchh = true
    · rw [if_pos hm] at hk
      obtain rfl : t = k := by exact_mod_cast hk
      exact hbit
    · rw [if_neg hm] at hk
      have hkbit := hinv.matchlevel_bit k hk
      rcases lt_trichotomy k t with hkt | rfl | hkt
      · exact absurd (hml_lt k hkt hk) hm
      · rw [hkbit] at hcarry
        exact absurd hcarry (by decide)
      · rw [← hkbit]
        exact testBit_add_two_pow_of_lt hy hbit0 hkt
  · -- the branch
    dsimp only
    intro k hk
    by_cases hm : c'.matchh = true
    · rw [if_pos hm] at hk
      obtain rfl : t = k := by exact_mod_cast hk
      exact hbranch' hm
    · rw [if_neg hm] at hk
      rw [hsame' (by simpa using hm)]
      exact hinv.branch k hk
  · dsimp only
    intro hnone
    by_cases hm : c'.matchh = true
    · exact absurd (if_pos hm) (hnone t)
    · have hnone' : ∀ k : Nat, s.matchlevel ≠ k := fun k => by simpa [hm] using hnone k
      rw [hsame' (by simpa using hm)]
      exact hinv.branch_nil hnone'
  · -- the flag: the pairs leaf `c` completes are the pairs the carry hashes
    dsimp only
    rw [hmut', hinv.mutated]
    constructor
    · rintro (⟨j, i, x, hle, hx⟩ | ⟨-, j, -, hjt, x, hx1, hx2⟩)
      · exact ⟨j, i, x, by omega, hx⟩
      · obtain ⟨heven, htwo⟩ := div_two_pow_even_of_lt hlow hbit hjt
        refine ⟨j, (c + 1) / 2 ^ j / 2 - 1, x, ((succ_mul_two_pow_eq_iff hlow hbit).mpr ⟨hjt, by omega⟩).le, ?_, ?_⟩
        · rw [show 2 * ((c + 1) / 2 ^ j / 2 - 1) = (c + 1) / 2 ^ j - 1 - 1 by omega]
          exact hx1
        · rw [show 2 * ((c + 1) / 2 ^ j / 2 - 1) + 1 = (c + 1) / 2 ^ j - 1 by omega]
          exact hx2
    · rintro ⟨j, i, x, hle, hx1, hx2⟩
      rcases Nat.lt_or_eq_of_le hle with hlt | heq
      · exact Or.inl ⟨j, i, x, by omega, hx1, hx2⟩
      · obtain ⟨hjt, hq⟩ := (succ_mul_two_pow_eq_iff hlow hbit).mp heq
        refine Or.inr ⟨trivial, j, Nat.zero_le j, hjt, x, ?_, ?_⟩
        · rw [hq, show 2 * i + 2 - 1 - 1 = 2 * i by omega]
          exact hx1
        · rw [hq, show 2 * i + 2 - 1 = 2 * i + 1 by omega]
          exact hx2
  · rw [hinv.count] at hloop
    rw [leafLoop]
    simp only [hinv.count, Nat.mod_eq_of_lt hc32, hloop]

/-- The first pass reads every leaf, and the invariant holds of all of them at the end. -/
theorem LeafInv.run (hn : l.length < 2 ^ 32) :
    ∀ (rest : List UInt256) (c : Nat) (s : MerkleState), LeafInv Hash l p s c → c ≤ l.length →
      l.drop c = rest → ∃ s', leafLoop Hash p rest s = some s' ∧ LeafInv Hash l p s' l.length := by
  intro rest
  induction rest with
  | nil =>
    intro c s hinv hc hdrop
    obtain rfl : c = l.length := by
      have := List.drop_eq_nil_iff.mp hdrop
      omega
    exact ⟨s, rfl, hinv⟩
  | cons leaf rest ih =>
    intro c s hinv hc hdrop
    have hlt : c < l.length := by
      by_contra hge
      rw [List.drop_eq_nil_of_le (by omega)] at hdrop
      cases hdrop
    rw [List.drop_eq_getElem_cons hlt, List.cons.injEq] at hdrop
    obtain ⟨hleaf, hrest⟩ := hdrop
    obtain ⟨s', hinv', heq⟩ := hinv.step (List.getElem?_eq_some_iff.mpr ⟨hlt, hleaf⟩) (by omega) rest
    rw [heq]
    exact ih (c + 1) s' hinv' hlt hrest

end FirstPass

/-- The loop before the sweep finds the lowest set bit of the count. -/
theorem lowestLevel_eq {count t : Nat} (ht : t < 32) (hbit : count.testBit t = true) :
    ∀ fuel level, level ≤ t → t - level < fuel → (∀ j, level ≤ j → j < t → count.testBit j = false) →
      lowestLevel count fuel level = some t
  | 0, _, _, hfuel, _ => absurd hfuel (Nat.not_lt_zero _)
  | fuel + 1, level, hlevel, hfuel, hlow => by
    rw [lowestLevel, if_neg (by omega)]
    by_cases hlt : level = t
    · rw [hlt, if_pos hbit]
    · rw [if_neg (by rw [hlow level le_rfl (by omega)]; decide)]
      exact lowestLevel_eq ht hbit fuel (level + 1) (by omega) (by omega) fun j hj hjt => hlow j (by omega) hjt

/-! ## The final sweep -/

section Sweep

variable (Hash : List UInt8 → UInt256) (l : List UInt256) (p : Nat) (s : MerkleState)

/-- What the sweep knows at `level`: `count` is the number of leaves rounded up to a
multiple of `2 ^ level`, with bit `level` set, `h` is the last node of the level, the
branch holds the siblings below the level once `h` is on the path, and the roots
stored above the level are still those of the first pass. -/
structure SweepInv (count level : Nat) (c : MerkleClimb) : Prop where
  le_count : l.length ≤ count
  count_lt : count < l.length + 2 ^ level
  dvd : 2 ^ level ∣ count
  bit : count.testBit level = true
  level_le : level ≤ Nat.clog 2 l.length
  h : (levels (hashPair Hash) l level)[count / 2 ^ level - 1]? = some c.h
  matchh : c.matchh = true ↔ OnPath l p level (count / 2 ^ level - 1)
  branch : c.matchh = true → IsBranchPrefix Hash l p c.branch level
  branch_eq : c.matchh = false → c.branch = s.branch
  mutated : c.mutated = s.mutated
  stored : Stored Hash l p s.inner s.matchlevel count (level + 1)

variable {Hash l p s}

/-- The sweep starts at the lowest set bit of the number of leaves, with the root stored
there. -/
theorem sweepInv_start (hinv : LeafInv Hash l p s l.length) (hne : l ≠ []) {t : Nat}
    (hbit : l.length.testBit t = true) (hlow : ∀ j < t, l.length.testBit j = false) :
    SweepInv Hash l p s l.length t ⟨s.inner t, decide (s.matchlevel = t), s.mutated, s.branch⟩ := by
  have hpos : 0 < l.length := List.length_pos_iff.mpr hne
  obtain ⟨hin, hml⟩ := hinv.stored t (Nat.zero_le t) hbit
  refine ⟨le_rfl, by have := Nat.two_pow_pos t; omega, two_pow_dvd_of_testBit_eq_false hlow, hbit,
    le_clog_of_two_pow_lt (by have := Nat.ge_two_pow_of_testBit hbit; omega), hin,
    by rw [decide_eq_true_iff]; exact hml, fun hm => hinv.branch t (by simpa using hm), fun _ => rfl, rfl,
    fun k hk => hinv.stored k (Nat.zero_le k)⟩

/-- One round of the sweep: the last node of the level is paired with itself, the count
gains `2 ^ level`, and the carry climbs to the next set bit. Below `2 ^ 31` leaves the
count does not wrap. -/
theorem SweepInv.step {count level : Nat} {c : MerkleClimb} (hinv : SweepInv Hash l p s count level c)
    (hbr : ∀ k : Nat, s.matchlevel = k → IsBranchPrefix Hash l p s.branch k) (hn : l.length ≤ 2 ^ 31)
    (hne : count ≠ 2 ^ level) :
    ∃ t c', level < t ∧
      climbLoop Hash false ((count + 2 ^ level) % 2 ^ 32) s.inner s.matchlevel 33 (level + 1)
        ⟨hashPair Hash c.h c.h, c.matchh, c.mutated, if c.matchh then c.branch ++ [c.h] else c.branch⟩ =
          some (t, c') ∧
      SweepInv Hash l p s ((count + 2 ^ level) % 2 ^ 32) t c' := by
  obtain ⟨u, hu⟩ := hinv.dvd
  have hlevel := Nat.two_pow_pos level
  have hq : count / 2 ^ level = u := by rw [hu, Nat.mul_div_cancel_left _ hlevel]
  have hodd : u % 2 = 1 := by
    have := hinv.bit
    rw [Nat.testBit_eq_decide_div_mod_eq, hq, decide_eq_true_iff] at this
    exact this
  -- the level has an odd number `u ≥ 3` of nodes, so the leaves are more than `2 ^ (level + 1)`
  have hu3 : 3 ≤ u := by
    rcases Nat.lt_or_ge u 3 with h | h
    · obtain rfl : u = 1 := by omega
      exact absurd (by rw [hu, Nat.mul_one]) hne
    · exact h
  have hn2 : 2 ^ level * 2 < l.length := by
    have : 2 ^ level * 3 ≤ count := by rw [hu]; exact Nat.mul_le_mul_left _ hu3
    have := hinv.count_lt
    omega
  have hx32 : count + 2 ^ level < 2 ^ 32 := by
    have := hinv.count_lt
    omega
  rw [Nat.mod_eq_of_lt hx32]
  obtain ⟨t, hbit, hlow⟩ := exists_lowest_testBit (show count + 2 ^ level ≠ 0 by omega)
  -- the sum is a multiple of `2 ^ (level + 1)`, so the carry goes past `level`
  have hdvd1 : 2 ^ (level + 1) ∣ count + 2 ^ level :=
    ⟨(u + 1) / 2, by rw [hu, Nat.pow_succ, Nat.mul_assoc, Nat.mul_div_cancel' (by omega), Nat.mul_succ]⟩
  have hlt : level < t := by
    by_contra hle
    rw [testBit_eq_false_of_two_pow_dvd hdvd1 (by omega)] at hbit
    exact Bool.false_ne_true hbit
  have ht32 : t < 32 :=
    (Nat.pow_lt_pow_iff_right (by decide)).mp (lt_of_le_of_lt (Nat.ge_two_pow_of_testBit hbit) hx32)
  have hhalf : (count + 2 ^ level) / 2 ^ (level + 1) = (u + 1) / 2 := by
    rw [hu, ← Nat.mul_succ, Nat.pow_succ, ← Nat.div_div_eq_div_mul, Nat.mul_div_cancel_left _ hlevel]
  -- `h` is the last node of its level
  have hsize : size l.length level = u := by
    have h1 : u - 1 < size l.length level := by
      have := (List.getElem?_eq_some_iff.mp hinv.h).1
      rwa [length_levels, hq] at this
    have h2 : ¬ u < size l.length level := by
      rw [lt_size_iff, Nat.mul_comm, ← hu]
      exact Nat.not_lt.mpr hinv.le_count
    omega
  have hlast : (levels (hashPair Hash) l level)[2 * ((u + 1) / 2 - 1)]? = some c.h := by
    rw [show 2 * ((u + 1) / 2 - 1) = count / 2 ^ level - 1 by omega]
    exact hinv.h
  have hp_lt : ∀ hp : p < l.length, p / 2 ^ level < u := fun hp =>
    (Nat.div_lt_iff_lt_mul hlevel).mpr (by rw [Nat.mul_comm, ← hu]; exact lt_of_lt_of_le hp hinv.le_count)
  obtain ⟨c', hloop, hh', hmatch', hmut', hbranch', hfrom', hsame'⟩ :=
    climbLoop_spec Hash l p false (count + 2 ^ level) s.inner s.matchlevel (fun j => (count + 2 ^ level) / 2 ^ j - 1)
      t ht32 hbit 33 (level + 1)
      ⟨hashPair Hash c.h c.h, c.matchh, c.mutated, if c.matchh then c.branch ++ [c.h] else c.branch⟩
      hlt (by omega) (fun j' hj' hj't => hinv.stored.pass hinv.dvd (Nat.le_succ level) hlow hbit j' hj' hj't)
      (by
        rw [hhalf]
        exact getElem?_levels_succ_of_last (hashPair Hash) hlast (by omega))
      (by
        rw [hinv.matchh, hhalf, hq]
        unfold OnPath
        rw [Nat.pow_succ, ← Nat.div_div_eq_div_mul]
        constructor
        · rintro ⟨hp, hpu⟩
          exact ⟨hp, by omega⟩
        · rintro ⟨hp, hpu⟩
          have := hp_lt hp
          exact ⟨hp, by omega⟩)
      (by
        intro hm
        dsimp only at hm ⊢
        simp only [hm, if_true]
        refine (hinv.branch hm).push Hash l p ?_
        obtain ⟨-, hpu⟩ := hinv.matchh.mp hm
        rw [hpu, hsize, hq]
        simp only [siblingIndex, show (u - 1) % 2 = 0 by omega, show ¬ u - 1 + 1 < u by omega, if_false,
          zero_ne_one]
        rw [← hq]
        exact hinv.h)
      (by
        intro k hk hm
        dsimp only at hm ⊢
        rw [if_neg (by simp [hm]), hinv.branch_eq hm]
        exact hbr k hk)
  simp only at hh' hmatch' hmut' hbranch' hfrom' hsame'
  refine ⟨t, c', hlt, hloop, ?_⟩
  have hcount_lt : count + 2 ^ level < l.length + 2 ^ t := by
    have := hinv.count_lt
    have := Nat.pow_le_pow_right (show 0 < 2 by decide) (show level + 1 ≤ t by omega)
    rw [Nat.pow_succ] at this
    omega
  refine ⟨by have := hinv.le_count; omega, hcount_lt, two_pow_dvd_of_testBit_eq_false hlow, hbit, ?_, hh',
    hmatch', hbranch', ?_, ?_, hinv.stored.carry hinv.dvd hbit (by omega)⟩
  · -- the new level is still at most the level of the root
    apply le_clog_of_two_pow_lt
    have hx := Nat.ge_two_pow_of_testBit hbit
    rcases Nat.lt_or_ge (level + 1) t with h | h
    · have := Nat.pow_le_pow_right (show 0 < 2 by decide) (show level + 1 ≤ t - 1 by omega)
      have ht : 2 ^ t = 2 ^ (t - 1) * 2 := by rw [← Nat.pow_succ]; congr 1; omega
      rw [Nat.pow_succ] at this
      have := hinv.count_lt
      omega
    · obtain rfl : t = level + 1 := by omega
      rw [Nat.pow_succ]
      omega
  · intro hf
    have hc : c.matchh = false := by
      cases hcm : c.matchh
      · rfl
      · rw [hfrom'.mpr (Or.inl hcm)] at hf
        exact absurd hf (by decide)
    rw [hsame' hf, if_neg (by simp [hc]), hinv.branch_eq hc]
  · rw [← hinv.mutated, Bool.eq_iff_iff, hmut']
    simp

/-- The sweep ends at the root: at the level of `⌈log₂ n⌉` the count is `2 ^ level`. The
branch is then complete for every leaf. -/
theorem SweepInv.run (hbr : ∀ k : Nat, s.matchlevel = k → IsBranchPrefix Hash l p s.branch k)
    (hn : l.length ≤ 2 ^ 31) :
    ∀ (fuel count level : Nat) (c : MerkleClimb), SweepInv Hash l p s count level c → 32 - level < fuel →
      ∃ c', sweepLoop Hash s.inner s.matchlevel fuel count level c = some c' ∧
        (levels (hashPair Hash) l (Nat.clog 2 l.length))[0]? = some c'.h ∧
        (c'.matchh = true ↔ p < l.length) ∧
        (c'.matchh = true → IsBranchPrefix Hash l p c'.branch (Nat.clog 2 l.length)) ∧
        c'.mutated = s.mutated
  | 0, _, _, _, _, hfuel => absurd hfuel (Nat.not_lt_zero _)
  | fuel + 1, count, level, c, hinv, hfuel => by
    have hlevel : level < 32 := by
      have := Nat.clog_le_of_le_pow hn
      have := hinv.level_le
      omega
    by_cases hfin : count = 2 ^ level
    · -- the root: the level has one node
      have hroot : level = Nat.clog 2 l.length :=
        le_antisymm hinv.level_le (Nat.clog_le_of_le_pow (hfin ▸ hinv.le_count))
      have hone : count / 2 ^ level = 1 := by rw [hfin, Nat.div_self (Nat.two_pow_pos level)]
      refine ⟨c, by rw [sweepLoop, if_neg (by omega), if_pos hfin], ?_, ?_, ?_, hinv.mutated⟩
      · rw [← hroot]
        have := hinv.h
        rwa [hone] at this
      · rw [hinv.matchh, hone]
        unfold OnPath
        constructor
        · exact fun h => h.1
        · intro hp
          exact ⟨hp, Nat.div_eq_of_lt (by have := hinv.le_count; omega)⟩
      · rw [← hroot]
        exact hinv.branch
    · obtain ⟨t, c', hlt, hloop, hinv'⟩ := hinv.step hbr hn hfin
      obtain ⟨c'', hrun, hres⟩ := SweepInv.run hbr hn fuel _ t c' hinv' (by omega)
      refine ⟨c'', ?_, hres⟩
      rw [sweepLoop, if_neg (by omega), if_neg hfin]
      simp only [hloop]
      exact hrun

end Sweep

/-! ## The root, the flag and the branch -/

/-- Up to `2 ^ 31` leaves, `MerkleComputation` returns the root of the tree, whether two
complete sibling nodes are equal, and the branch of the leaf at `branchpos`. -/
theorem MerkleComputation_eq (Hash : List UInt8 → UInt256) {leaves : List UInt256} (hne : leaves ≠ [])
    (hn : leaves.length ≤ 2 ^ 31) (branchpos : UInt32) :
    ∃ r m b, MerkleComputation Hash leaves branchpos = some (r, m, b) ∧ root (hashPair Hash) leaves = some r ∧
      (m = true ↔ CompleteMutated (hashPair Hash) leaves) ∧
      (branchpos.toNat < leaves.length →
        IsBranchPrefix Hash leaves branchpos.toNat b (Nat.clog 2 leaves.length)) := by
  have hpos : 0 < leaves.length := List.length_pos_iff.mpr hne
  obtain ⟨s, hleaf, hinv⟩ := LeafInv.run (by omega) leaves 0 _ (leafInv_zero Hash leaves branchpos.toNat)
    (Nat.zero_le _) List.drop_zero
  obtain ⟨t, hbit, hlow⟩ := exists_lowest_testBit (show leaves.length ≠ 0 by omega)
  have ht32 : t < 32 :=
    (Nat.pow_lt_pow_iff_right (by decide)).mp (lt_of_le_of_lt (Nat.ge_two_pow_of_testBit hbit) (by omega))
  have hlowest : lowestLevel leaves.length 33 0 = some t :=
    lowestLevel_eq ht32 hbit 33 0 (Nat.zero_le t) (by omega) fun j _ hj => hlow j hj
  obtain ⟨c, hrun, hroot, hmatch, hbranch, hmut⟩ :=
    SweepInv.run hinv.branch hn 33 leaves.length t _ (sweepInv_start hinv hne hbit hlow) (by omega)
  refine ⟨c.h, c.mutated, c.branch, ?_, by rw [root_eq _ hne, hroot], ?_, fun hp => hbranch (hmatch.mpr hp)⟩
  · rw [MerkleComputation, if_neg (by omega)]
    simp [hleaf, hlowest, hinv.count, hrun]
  · rw [hmut, hinv.mutated]
    rfl

/-- Up to `2 ^ 31` leaves, `ComputeMerkleRoot` returns the root of the tree. Its flag is
set only for a mutated tree, and for every mutated tree whose hashes do not collide; and
the branch of every leaf climbs back to that root. -/
theorem ComputeMerkleRoot_correct (Hash : List UInt8 → UInt256) (leaves : List UInt256) (hne : leaves ≠ [])
    (hn : leaves.length ≤ 2 ^ 31) :
    ∃ r m, ComputeMerkleRoot Hash leaves = some (r, m) ∧ root (hashPair Hash) leaves = some r ∧
      (m = true → Mutated (hashPair Hash) leaves) ∧
      (CollisionFree (hashPair Hash) leaves → Mutated (hashPair Hash) leaves → m = true) ∧
      ∀ (pos : UInt32) (hp : pos.toNat < leaves.length), ∃ branch,
        ComputeMerkleBranch Hash leaves pos = some branch ∧
        ComputeMerkleRootFromBranch Hash leaves[pos.toNat] branch pos = r := by
  obtain ⟨r, m, b, hmc, hroot, hmut, -⟩ := MerkleComputation_eq Hash hne hn 0xFFFFFFFF
  refine ⟨r, m, by simp [ComputeMerkleRoot, hmc], hroot, fun hm => mutated_of_completeMutated _ (hmut.mp hm),
    fun hcf hmu => hmut.mpr (completeMutated_of_mutated hcf hmu), ?_⟩
  intro pos hp
  obtain ⟨r', m', b', hmc', hroot', -, hbr⟩ := MerkleComputation_eq Hash hne hn pos
  refine ⟨b', by simp [ComputeMerkleBranch, hmc'], ?_⟩
  -- the branch climbs from the leaf to the node of the root's level
  obtain ⟨hlen, hsib⟩ := hbr hp
  have hpath := pathRoot_levels (hashPair Hash) leaves b' 0 pos.toNat leaves[pos.toNat] (by simp)
    (fun t ht => by rw [Nat.zero_add]; exact hsib t (hlen ▸ ht))
  have htop : pos.toNat / 2 ^ b'.length = 0 :=
    Nat.div_eq_of_lt (by rw [hlen]; exact lt_of_lt_of_le hp (Nat.le_pow_clog (by decide) _))
  rw [Nat.zero_add, htop, hlen, ← root_eq _ hne, hroot] at hpath
  rw [ComputeMerkleRootFromBranch_eq]
  exact (Option.some.inj hpath).symm

/-- From `2 ^ 31 + 2 ^ j` leaves at level `j` the sweep adds `2 ^ j` after `2 ^ j` until the
count reaches `2 ^ 32`, which a `uint32_t` holds as `0`; the carry then climbs past
level `31`. -/
theorem sweepLoop_overflow (Hash : List UInt8 → UInt256) (inner : Nat → UInt256) (ml : Int) :
    ∀ (fuel j : Nat) (c : MerkleClimb), j ≤ 30 → sweepLoop Hash inner ml fuel (2 ^ 31 + 2 ^ j) j c = none
  | 0, _, _, _ => rfl
  | fuel + 1, j, c, hj => by
    have hpow := Nat.pow_le_pow_right (show 0 < 2 by decide) hj
    rw [sweepLoop, if_neg (by omega), if_neg (by omega)]
    by_cases h30 : j = 30
    · -- the count wraps to `0`: no bit stops the carry before level `32`
      subst h30
      simp [climbLoop]
    · have hsucc : (2 ^ 31 + 2 ^ j + 2 ^ j) % 2 ^ 32 = 2 ^ 31 + 2 ^ (j + 1) := by
        have := Nat.pow_le_pow_right (show 0 < 2 by decide) (show j + 1 ≤ 30 by omega)
        rw [Nat.pow_succ] at this ⊢
        omega
      have hstop : (2 ^ 31 + 2 ^ (j + 1)).testBit (j + 1) = true := by
        rw [Nat.testBit_two_pow_add_gt (by omega), Nat.testBit_two_pow_self]
      simp only [hsucc]
      rw [climbLoop, if_neg (by omega), if_pos hstop]
      exact sweepLoop_overflow Hash inner ml fuel (j + 1) _ (by omega)

/-- With `2 ^ 31 + 1` leaves `MerkleComputation` computes no root. -/
theorem MerkleComputation_overflow (Hash : List UInt8 → UInt256) {leaves : List UInt256}
    (hn : leaves.length = 2 ^ 31 + 1) (branchpos : UInt32) : MerkleComputation Hash leaves branchpos = none := by
  obtain ⟨s, hleaf, hinv⟩ := LeafInv.run (by omega) leaves 0 _ (leafInv_zero Hash leaves branchpos.toNat)
    (Nat.zero_le _) List.drop_zero
  have hlowest : lowestLevel leaves.length 33 0 = some 0 :=
    lowestLevel_eq (by decide) (by rw [hn]; decide) 33 0 le_rfl (by decide) fun j hj hj' => absurd hj' (by omega)
  have hsweep := sweepLoop_overflow Hash s.inner s.matchlevel 33 0
    ⟨s.inner 0, decide (s.matchlevel = (0 : Nat)), s.mutated, s.branch⟩ (by decide)
  rw [MerkleComputation, if_neg (by omega), hleaf]
  simp only [Option.bind_eq_bind, Option.bind_some, hinv.count, hlowest]
  rw [show leaves.length = 2 ^ 31 + 2 ^ 0 by rw [hn]; rfl, hsweep]
  rfl

theorem ComputeMerkleRoot_overflow :
    ComputeMerkleRoot (fun _ => UInt256.zero) (List.replicate (2 ^ 31 + 1) UInt256.zero) = none ∧
      (root (hashPair fun _ => UInt256.zero) (List.replicate (2 ^ 31 + 1) UInt256.zero)).isSome :=
  ⟨by rw [ComputeMerkleRoot, MerkleComputation_overflow _ List.length_replicate]; rfl,
    root_isSome _ (List.ne_nil_of_length_pos (by rw [List.length_replicate]; omega))⟩

end BitcoinPQ

import BitcoinPQ.Models.Chain.BlockIndex

/-!
# The block tree, its skip list and the active chain

`chain.cpp`. Every `CBlockIndex` points at its parent (`pprev`) and at one further
ancestor (`pskip`), which `BuildSkip` sets when the entry is linked into the tree, at the
height `GetSkipHeight` picks. `GetAncestor` walks back along both pointers;
`LastCommonAncestor` and `CChain::FindFork` walk along `pprev`; `CChain::SetTip`
rewrites the vector of the active chain from the new tip down to where it meets the old
one.

The tree is modelled as the heap of entries the pointers point into: an entry is its
height and its two pointers, a pointer is a position in the list, and the list only
grows, as `AddToBlockIndex` only adds entries. Pointer comparisons of the source are
comparisons of positions. Loops run on a fuel argument no smaller than the number of
passes they make, which the theorems show never runs out.

The specification of every walk is `prevWalk`: `k` steps along `pprev`. The skip list
is correct whatever `GetSkipHeight` returns below the height it is given: every `pskip`
is the ancestor at that height, so both branches of `GetAncestor` move to an ancestor
at or above the target.
-/

namespace BitcoinPQ

namespace BlockTree

/-- What the walks read of a `CBlockIndex`: its height and its two pointers, as positions
in the tree. -/
structure BlockNode where
  nHeight : Nat
  pprev : Option Nat
  pskip : Option Nat
  deriving DecidableEq, Repr

/-- `InvertLowestOne`: clears the lowest set bit. -/
def InvertLowestOne (n : Nat) : Nat := n &&& (n - 1)

/-- `GetSkipHeight`. Heights are never negative, so the `int` arithmetic of the source is
that of `Nat` here. -/
def GetSkipHeight (height : Nat) : Nat :=
  if height < 2 then 0
  else if height &&& 1 != 0 then InvertLowestOne (InvertLowestOne (height - 1)) + 1
  else InvertLowestOne height

/-- `pindex->pprev`, through a pointer that may be null or dangling. -/
def pprevOf (tree : List BlockNode) (p : Nat) : Option Nat :=
  tree[p]?.bind BlockNode.pprev

/-- `k` steps along `pprev`. -/
def prevWalk (tree : List BlockNode) : Nat → Nat → Option Nat
  | 0, p => some p
  | k + 1, p => (pprevOf tree p).bind (prevWalk tree k)

/-- The loop of `CBlockIndex::GetAncestor`, from `pindexWalk` at `heightWalk`, with at most
`fuel` passes left. `heightSkipPrev < heightSkip - 2` is read in `Nat`: where `heightSkip`
is below `2` the `int` difference is negative and the `Nat` one is `0`, and both
comparisons are false. -/
def ancestorWalk (tree : List BlockNode) (height : Nat) : Nat → Nat → Nat → Option Nat
  | 0, pindexWalk, heightWalk => if heightWalk > height then none else some pindexWalk
  | fuel + 1, pindexWalk, heightWalk =>
    if heightWalk > height then
      let heightSkip := GetSkipHeight heightWalk
      let heightSkipPrev := GetSkipHeight (heightWalk - 1)
      tree[pindexWalk]?.bind fun walk =>
        if walk.pskip.isSome ∧ (heightSkip = height ∨
            heightSkip > height ∧ ¬(heightSkipPrev < heightSkip - 2 ∧ heightSkipPrev ≥ height)) then
          -- only follow pskip if pprev->pskip isn't better than pskip->pprev
          walk.pskip.bind fun pskip => ancestorWalk tree height fuel pskip heightSkip
        else
          -- assert(pindexWalk->pprev)
          walk.pprev.bind fun pprev => ancestorWalk tree height fuel pprev (heightWalk - 1)
    else some pindexWalk

/-- `CBlockIndex::GetAncestor`: `nullptr` outside `[0, nHeight]`. Each pass lowers
`heightWalk`, so `nHeight` passes are enough. -/
def GetAncestor (tree : List BlockNode) (p : Nat) (height : Int) : Option Nat :=
  tree[p]?.bind fun index =>
    if height > index.nHeight ∨ height < 0 then none
    else ancestorWalk tree height.toNat index.nHeight p index.nHeight

/-- `CBlockIndex::BuildSkip` of an entry about to be added to `tree`. -/
def BuildSkip (tree : List BlockNode) (index : BlockNode) : BlockNode :=
  match index.pprev with
  | some pprev => { index with pskip := GetAncestor tree pprev (GetSkipHeight index.nHeight) }
  | none => index

/-- The linking part of `AddToBlockIndex`: a new entry, put one above its parent and given
its skip pointer when the parent is in the tree, at height `0` without pointers otherwise. -/
def AddToBlockIndex (tree : List BlockNode) (prev : Option Nat) : List BlockNode :=
  let pindexNew : BlockNode := ⟨0, none, none⟩
  let pindexNew :=
    match prev.bind fun p => tree[p]?.map fun parent => (p, parent) with
    | some (p, parent) => BuildSkip tree { pindexNew with pprev := some p, nHeight := parent.nHeight + 1 }
    | none => pindexNew
  tree ++ [pindexNew]

/-- The trees `AddToBlockIndex` builds: the genesis entry, then entries linked to entries
already in the tree. -/
inductive Built : List BlockNode → Prop
  | genesis : Built (AddToBlockIndex [] none)
  | link {tree : List BlockNode} {p : Nat} : Built tree → p < tree.length →
      Built (AddToBlockIndex tree (some p))

/-- `r` is reached from `p` along `pprev`. -/
def IsAncestor (tree : List BlockNode) (r p : Nat) : Prop :=
  ∃ k, prevWalk tree k p = some r

/-- The loop of `LastCommonAncestor`: both pointers step back together while they differ
and neither is null. -/
def commonAncestorLoop (tree : List BlockNode) : Nat → Option Nat → Option Nat → Option Nat × Option Nat
  | 0, pa, pb => (pa, pb)
  | fuel + 1, pa, pb =>
    if pa ≠ pb ∧ pa.isSome ∧ pb.isSome then
      commonAncestorLoop tree fuel (pa.bind (pprevOf tree)) (pb.bind (pprevOf tree))
    else (pa, pb)

/-- `LastCommonAncestor`: both walks start at the lower of the two heights, so that many
passes are enough. `none` where the assertion that the walks met fails. -/
def LastCommonAncestor (tree : List BlockNode) (pa pb : Nat) : Option Nat :=
  match tree[pa]?, tree[pb]? with
  | some a, some b =>
    let (pa, pb) :=
      if a.nHeight > b.nHeight then (GetAncestor tree pa b.nHeight, some pb)
      else if b.nHeight > a.nHeight then (some pa, GetAncestor tree pb a.nHeight)
      else (some pa, some pb)
    let (pa, pb) := commonAncestorLoop tree (min a.nHeight b.nHeight) pa pb
    -- assert(pa == pb)
    if pa = pb then pa else none
  | _, _ => none

/-- `std::vector::resize`: cut to `n` entries, or filled up to `n` with `value`. -/
def resize {α : Type} (v : List α) (n : Nat) (value : α) : List α :=
  v.take n ++ List.replicate (n - v.length) value

/-- `CChain`: the entries of the active chain, by height. -/
structure CChain where
  vChain : List (Option Nat)

namespace CChain

/-- `CChain::operator[]`. -/
def get (chain : CChain) (nHeight : Int) : Option Nat :=
  if nHeight < 0 ∨ nHeight ≥ chain.vChain.length then none else chain.vChain.getD nHeight.toNat none

/-- `CChain::Height`. -/
def Height (chain : CChain) : Int := chain.vChain.length - 1

/-- `CChain::Contains`. -/
def Contains (tree : List BlockNode) (chain : CChain) (p : Nat) : Bool :=
  match tree[p]? with
  | some index => chain.get index.nHeight == some p
  | none => false

/-- The loop of `CChain::SetTip`: from the new tip down, each entry is written at its height
until one is already there. -/
def setTipLoop (tree : List BlockNode) : Nat → List (Option Nat) → Option Nat → List (Option Nat)
  | _, vChain, none => vChain
  | 0, vChain, some _ => vChain
  | fuel + 1, vChain, some p =>
    match tree[p]? with
    | some index =>
      if vChain.getD index.nHeight none ≠ some p then
        setTipLoop tree fuel (vChain.set index.nHeight (some p)) index.pprev
      else vChain
    | none => vChain

/-- `CChain::SetTip`. The loop visits the tip and its ancestors, at most `nHeight + 1`
entries. -/
def SetTip (tree : List BlockNode) (chain : CChain) (pindex : Option Nat) : CChain :=
  match pindex with
  | none => ⟨[]⟩
  | some p =>
    match tree[p]? with
    | some index =>
      ⟨setTipLoop tree (index.nHeight + 1) (resize chain.vChain (index.nHeight + 1) none) (some p)⟩
    | none => chain

/-- The loop of `CChain::FindFork`: back along `pprev` until an entry of the chain. -/
def findForkLoop (tree : List BlockNode) (chain : CChain) : Nat → Option Nat → Option Nat
  | _, none => none
  | 0, some p => some p
  | fuel + 1, some p =>
    if chain.Contains tree p then some p else findForkLoop tree chain fuel (pprevOf tree p)

/-- `CChain::FindFork`: from the ancestor at the chain's height, if the entry is above it. -/
def FindFork (tree : List BlockNode) (chain : CChain) (pindex : Option Nat) : Option Nat :=
  match pindex with
  | none => none
  | some p =>
    match tree[p]? with
    | some index =>
      let pindex := if (index.nHeight : Int) > chain.Height then GetAncestor tree p chain.Height else some p
      findForkLoop tree chain (index.nHeight + 1) pindex
    | none => none

end CChain

/-- The vector of the chain whose tip is `tip`, at height `nHeight`: slot `h` is the ancestor
at height `h`. -/
def ancestorsOf (tree : List BlockNode) (tip nHeight : Nat) : List (Option Nat) :=
  (List.range (nHeight + 1)).map fun h => prevWalk tree (nHeight - h) tip

/-- What every `SetTip` leaves: the empty chain, or the ancestors of an entry. -/
def IsActiveChain (tree : List BlockNode) (chain : CChain) : Prop :=
  chain.vChain = [] ∨ ∃ tip index, tree[tip]? = some index ∧ chain.vChain = ancestorsOf tree tip index.nHeight

/-- `c` is the last common ancestor of `a` and `b`: an ancestor of both, and every common
ancestor is one of `c`. -/
def IsLastCommonAncestor (tree : List BlockNode) (c a b : Nat) : Prop :=
  IsAncestor tree c a ∧ IsAncestor tree c b ∧ ∀ r, IsAncestor tree r a → IsAncestor tree r b → IsAncestor tree r c

/-- `q` is the highest ancestor of `p` in the chain: every ancestor of `p` in the chain is one
of `q`. -/
def IsFork (tree : List BlockNode) (chain : CChain) (q p : Nat) : Prop :=
  IsAncestor tree q p ∧ chain.Contains tree q = true ∧
    ∀ r, IsAncestor tree r p → chain.Contains tree r = true → IsAncestor tree r q

/-- The slots of `v` up to `n` hold each entry's ancestors below it. -/
def AncestorClosed (tree : List BlockNode) (v : List (Option Nat)) (n : Nat) : Prop :=
  ∀ h r, h ≤ n → v[h]? = some (some r) → ∀ h' ≤ h, v[h']? = some (prevWalk tree (h - h') r)

/-- The invariant of a built tree: every parent is in the tree one below its child, only
the first entry has no parent, and every skip pointer is the ancestor at the height
`GetSkipHeight` gives. -/
structure WellLinked (tree : List BlockNode) : Prop where
  pprev_height : ∀ {i p : Nat} {index : BlockNode}, tree[i]? = some index → index.pprev = some p →
    ∃ parent, tree[p]? = some parent ∧ parent.nHeight + 1 = index.nHeight
  genesis : ∀ {i : Nat} {index : BlockNode}, tree[i]? = some index → index.pprev = none →
    i = 0 ∧ index.nHeight = 0
  pskip_eq : ∀ {i p : Nat} {index : BlockNode}, tree[i]? = some index → index.pskip = some p →
    prevWalk tree (index.nHeight - GetSkipHeight index.nHeight) i = some p

/-! ## Skip heights -/

theorem InvertLowestOne_lt {n : Nat} (h : 0 < n) : InvertLowestOne n < n :=
  Nat.lt_of_le_of_lt Nat.and_le_right (by omega)

theorem InvertLowestOne_le (n : Nat) : InvertLowestOne n ≤ n :=
  Nat.and_le_left

/-- The skip pointer goes strictly down: what termination and `BuildSkip` rest on. -/
theorem GetSkipHeight_lt {height : Nat} (h : 0 < height) : GetSkipHeight height < height := by
  unfold GetSkipHeight
  split_ifs with h2 hodd
  · exact h
  · -- clearing two bits of `height - 1 ≥ 2` goes at least one below it
    have h1 := InvertLowestOne_lt (n := height - 1) (by omega)
    have h2' := InvertLowestOne_le (InvertLowestOne (height - 1))
    omega
  · exact InvertLowestOne_lt h

/-! ## Walks along `pprev` -/

/-- The parent pointer of an entry in the tree. -/
theorem pprevOf_eq {tree : List BlockNode} {p : Nat} {index : BlockNode} (hp : tree[p]? = some index) :
    pprevOf tree p = index.pprev := by
  rw [pprevOf, hp, Option.bind_some]

@[simp] theorem prevWalk_zero (tree : List BlockNode) (p : Nat) : prevWalk tree 0 p = some p := rfl

theorem prevWalk_succ (tree : List BlockNode) (k p : Nat) :
    prevWalk tree (k + 1) p = (pprevOf tree p).bind (prevWalk tree k) := rfl

theorem prevWalk_add (tree : List BlockNode) (i j p : Nat) :
    prevWalk tree (i + j) p = (prevWalk tree i p).bind (prevWalk tree j) := by
  induction i generalizing p with
  | zero => rw [Nat.zero_add]; rfl
  | succ i ih =>
    rw [Nat.add_right_comm, prevWalk_succ, prevWalk_succ, Option.bind_assoc]
    exact congrArg (pprevOf tree p).bind (funext ih)

theorem prevWalk_add_of_eq {tree : List BlockNode} {i j p q : Nat} (h : prevWalk tree i p = some q) :
    prevWalk tree (i + j) p = prevWalk tree j q := by
  rw [prevWalk_add, h, Option.bind_some]

section WellLinked

variable {tree : List BlockNode} (hw : WellLinked tree)
include hw

/-- A step back from an entry of positive height lands on its parent, one below it. -/
theorem WellLinked.pprevOf_of_pos {p : Nat} {index : BlockNode} (hp : tree[p]? = some index)
    (hpos : 0 < index.nHeight) :
    ∃ q parent, pprevOf tree p = some q ∧ tree[q]? = some parent ∧ parent.nHeight + 1 = index.nHeight := by
  cases hprev : index.pprev with
  | none => exact absurd (hw.genesis hp hprev).2 (by omega)
  | some q =>
    obtain ⟨parent, hq, hh⟩ := hw.pprev_height hp hprev
    exact ⟨q, parent, by rw [pprevOf_eq hp, hprev], hq, hh⟩

/-- What `k` steps back reach is in the tree, `k` below the start. -/
theorem WellLinked.prevWalk_height {k p q : Nat} {index : BlockNode} (hp : tree[p]? = some index)
    (h : prevWalk tree k p = some q) : ∃ node, tree[q]? = some node ∧ node.nHeight + k = index.nHeight := by
  induction k generalizing p index with
  | zero =>
    cases h
    exact ⟨index, hp, rfl⟩
  | succ k ih =>
    rw [prevWalk_succ] at h
    obtain ⟨r, hr, hq⟩ := Option.bind_eq_some_iff.mp h
    rw [pprevOf_eq hp] at hr
    obtain ⟨parent, hparent, hh⟩ := hw.pprev_height hp hr
    obtain ⟨node, hnode, hnh⟩ := ih hparent hq
    exact ⟨node, hnode, by omega⟩

/-- Every height down to `0` is reached. -/
theorem WellLinked.exists_prevWalk {k p : Nat} {index : BlockNode} (hp : tree[p]? = some index)
    (hk : k ≤ index.nHeight) : ∃ q, prevWalk tree k p = some q := by
  induction k generalizing p index with
  | zero => exact ⟨p, rfl⟩
  | succ k ih =>
    obtain ⟨q, parent, hq, hparent, hh⟩ := hw.pprevOf_of_pos hp (by omega)
    obtain ⟨r, hr⟩ := ih hparent (by omega)
    exact ⟨r, by rw [prevWalk_succ, hq, Option.bind_some, hr]⟩

/-- The loop of `GetAncestor` finds the ancestor `pprev` steps reach: a pass along `pskip`
lands on the ancestor at `heightSkip`, one along `pprev` on the one just below, and
neither goes below the target. -/
theorem WellLinked.ancestorWalk_eq {height : Nat} :
    ∀ (fuel w : Nat) (node : BlockNode), tree[w]? = some node → height ≤ node.nHeight →
      node.nHeight - height ≤ fuel →
      ancestorWalk tree height fuel w node.nHeight = prevWalk tree (node.nHeight - height) w := by
  intro fuel
  induction fuel with
  | zero =>
    intro w node _ hle hfuel
    rw [ancestorWalk, if_neg (by omega), show node.nHeight - height = 0 by omega]
    rfl
  | succ fuel ih =>
    intro w node hwn hle hfuel
    by_cases hgt : node.nHeight > height
    · rw [ancestorWalk, if_pos hgt, hwn, Option.bind_some]
      split_ifs with hskip
      · -- along pskip: to the ancestor at the skip height, at or above the target
        obtain ⟨pskip, hpskip⟩ := Option.isSome_iff_exists.mp hskip.1
        have hskipEq := hw.pskip_eq hwn hpskip
        obtain ⟨skipNode, hsn, hsh⟩ := hw.prevWalk_height hwn hskipEq
        have hlt : GetSkipHeight node.nHeight < node.nHeight := GetSkipHeight_lt (by omega)
        have hsnh : skipNode.nHeight = GetSkipHeight node.nHeight := by omega
        rw [hpskip, Option.bind_some, ← hsnh, ih pskip skipNode hsn (by omega) (by omega),
          ← prevWalk_add_of_eq hskipEq]
        congr 1
        omega
      · -- along pprev: to the parent, one below
        obtain ⟨q, parent, hq, hparent, hh⟩ := hw.pprevOf_of_pos hwn (by omega)
        have hprev : node.pprev = some q := by rwa [pprevOf_eq hwn] at hq
        rw [hprev, Option.bind_some, show node.nHeight - 1 = parent.nHeight by omega,
          ih q parent hparent (by omega) (by omega),
          show node.nHeight - height = (parent.nHeight - height) + 1 by omega, prevWalk_succ, hq,
          Option.bind_some]
    · rw [ancestorWalk, if_neg hgt, show node.nHeight - height = 0 by omega]
      rfl

/-- `GetAncestor` of a height in range is the ancestor `pprev` steps reach. -/
theorem WellLinked.GetAncestor_eq_prevWalk {p : Nat} {index : BlockNode} (hp : tree[p]? = some index) {height : Int}
    (h0 : 0 ≤ height) (hle : height ≤ index.nHeight) :
    GetAncestor tree p height = prevWalk tree (index.nHeight - height.toNat) p := by
  rw [GetAncestor, hp, Option.bind_some, if_neg (by omega)]
  exact hw.ancestorWalk_eq index.nHeight p index hp (by omega) (by omega)

end WellLinked

theorem GetAncestor_of_out {tree : List BlockNode} {p : Nat} {index : BlockNode} (hp : tree[p]? = some index)
    {height : Int} (hout : height < 0 ∨ index.nHeight < height) : GetAncestor tree p height = none := by
  rw [GetAncestor, hp, Option.bind_some, if_pos (by omega)]

/-! ## Building the tree -/

/-- Walks from old entries never reach a new one: their pointers are all in the old tree. -/
theorem WellLinked.prevWalk_append {tree : List BlockNode} (hw : WellLinked tree) (ext : List BlockNode) :
    ∀ (k p : Nat), p < tree.length → prevWalk (tree ++ ext) k p = prevWalk tree k p := by
  intro k
  induction k with
  | zero => intro p _; rfl
  | succ k ih =>
    intro p hp
    rw [prevWalk_succ, prevWalk_succ, pprevOf, pprevOf, List.getElem?_append_left hp]
    cases hpn : tree[p]? with
    | none => rfl
    | some index =>
      cases hprev : index.pprev with
      | none => simp [hprev]
      | some q =>
        obtain ⟨parent, hq, -⟩ := hw.pprev_height hpn hprev
        simp only [Option.bind_some, hprev]
        exact ih q (List.getElem?_eq_some_iff.mp hq).1

theorem WellLinked.append {tree : List BlockNode} (hw : WellLinked tree) (new : BlockNode)
    (hprev : ∀ p, new.pprev = some p → ∃ parent, tree[p]? = some parent ∧ parent.nHeight + 1 = new.nHeight)
    (hgenesis : new.pprev = none → tree = [] ∧ new.nHeight = 0)
    (hskip : ∀ p, new.pskip = some p →
      prevWalk (tree ++ [new]) (new.nHeight - GetSkipHeight new.nHeight) tree.length = some p) :
    WellLinked (tree ++ [new]) := by
  -- an entry of the new tree is an old one or the new one
  have hcases : ∀ {i : Nat} {index : BlockNode}, (tree ++ [new])[i]? = some index →
      (i < tree.length ∧ tree[i]? = some index) ∨ (i = tree.length ∧ index = new) := by
    intro i index h
    rcases Nat.lt_or_ge i tree.length with hi | hi
    · exact Or.inl ⟨hi, by rwa [List.getElem?_append_left hi] at h⟩
    · rw [List.getElem?_append_right hi, List.getElem?_singleton] at h
      split_ifs at h with hi'
      · exact Or.inr ⟨by omega, (Option.some.inj h).symm⟩
  have hold : ∀ {p : Nat} {parent : BlockNode}, tree[p]? = some parent → (tree ++ [new])[p]? = some parent :=
    fun h => by rw [List.getElem?_append_left (List.getElem?_eq_some_iff.mp h).1, h]
  refine ⟨fun hi hp => ?_, fun hi hp => ?_, fun hi hp => ?_⟩
  · rcases hcases hi with ⟨-, hi⟩ | ⟨-, rfl⟩
    · obtain ⟨parent, hparent, hh⟩ := hw.pprev_height hi hp
      exact ⟨parent, hold hparent, hh⟩
    · obtain ⟨parent, hparent, hh⟩ := hprev _ hp
      exact ⟨parent, hold hparent, hh⟩
  · rcases hcases hi with ⟨-, hi⟩ | ⟨rfl, rfl⟩
    · exact hw.genesis hi hp
    · obtain ⟨rfl, h0⟩ := hgenesis hp
      exact ⟨rfl, h0⟩
  · rcases hcases hi with ⟨hlt, hi⟩ | ⟨rfl, rfl⟩
    · rw [hw.prevWalk_append [new] _ _ hlt]
      exact hw.pskip_eq hi hp
    · exact hskip _ hp

/-- The run lemma of the tree: every tree `AddToBlockIndex` builds keeps the invariant. -/
theorem Built.wellLinked {tree : List BlockNode} (h : Built tree) : WellLinked tree := by
  induction h with
  | genesis =>
    refine WellLinked.append ⟨fun h => by simp at h, fun h => by simp at h, fun h => by simp at h⟩ _
      (fun p hp => by simp at hp) (fun _ => ⟨rfl, rfl⟩) (fun p hp => by simp at hp)
  | @link tree p _ hp ih =>
    obtain ⟨parent, hparent⟩ : ∃ parent, tree[p]? = some parent := ⟨tree[p], List.getElem?_eq_getElem hp⟩
    have hnew : AddToBlockIndex tree (some p) =
        tree ++ [⟨parent.nHeight + 1, some p, GetAncestor tree p (GetSkipHeight (parent.nHeight + 1))⟩] := by
      simp [AddToBlockIndex, hparent, BuildSkip]
    rw [hnew]
    refine ih.append _ (fun q hq => ?_) (fun h => by simp at h) (fun q hq => ?_)
    · cases hq
      exact ⟨parent, hparent, rfl⟩
    · -- the skip pointer is the parent's ancestor at the skip height, found by `GetAncestor`
      have hlt : GetSkipHeight (parent.nHeight + 1) < parent.nHeight + 1 := GetSkipHeight_lt (by omega)
      simp only at hq ⊢
      rw [ih.GetAncestor_eq_prevWalk hparent (by omega) (by omega)] at hq
      rw [show parent.nHeight + 1 - GetSkipHeight (parent.nHeight + 1) =
          (parent.nHeight - (GetSkipHeight (parent.nHeight + 1) : Int).toNat) + 1 by omega,
        prevWalk_succ, pprevOf, List.getElem?_concat_length, Option.bind_some, Option.bind_some,
        ih.prevWalk_append _ _ _ hp]
      exact hq

/-! ## The tree as block index entries

Give every entry of the tree the record of its block: the entry at `p` is then the
`CBlockIndex` of `BlockIndex.lean`, its record followed by those `pprev` steps reach.
On the trees `AddToBlockIndex` builds, the skip-list walk of `GetAncestor` over
positions finds the entry that `CBlockIndex.GetAncestor` finds by `pprev` steps. -/

/-- The records of `fuel` ancestors of `p`, parent first. -/
def ancestorEntries (tree : List BlockNode) (entries : Nat → BlockEntry) : Nat → Nat → List BlockEntry
  | 0, _ => []
  | fuel + 1, p =>
    match pprevOf tree p with
    | some q => entries q :: ancestorEntries tree entries fuel q
    | none => []

/-- The `CBlockIndex` the entry at `p` stands for. -/
def toIndex (tree : List BlockNode) (entries : Nat → BlockEntry) (p : Nat) : Option CBlockIndex :=
  tree[p]?.map fun index => ⟨entries p, ancestorEntries tree entries index.nHeight p⟩

section Entries

variable {tree : List BlockNode} (hw : WellLinked tree) (entries : Nat → BlockEntry)
include hw

/-- An entry has as many ancestors as its height. -/
theorem WellLinked.length_ancestorEntries :
    ∀ {k p : Nat} {index : BlockNode}, tree[p]? = some index → k ≤ index.nHeight →
      (ancestorEntries tree entries k p).length = k
  | 0, _, _, _, _ => rfl
  | k + 1, p, index, hp, hk => by
    obtain ⟨q, parent, hq, hparent, hh⟩ := hw.pprevOf_of_pos hp (by omega)
    rw [ancestorEntries, hq, List.length_cons, WellLinked.length_ancestorEntries hparent (by omega)]

/-- The step lemma: `pprev` of an entry's `CBlockIndex` is that of its parent. -/
theorem WellLinked.pprev_toIndex {p q : Nat} {index : BlockNode} (hp : tree[p]? = some index)
    (hq : pprevOf tree p = some q) : (toIndex tree entries p).bind CBlockIndex.pprev = toIndex tree entries q := by
  have hprev : index.pprev = some q := by rwa [pprevOf_eq hp] at hq
  obtain ⟨parent, hparent, hh⟩ := hw.pprev_height hp hprev
  rw [toIndex, hp, toIndex, hparent, Option.map_some, Option.map_some, Option.bind_some, ← hh,
    ancestorEntries, hq]
  rfl

/-- The run lemma: `k` steps along `pprev` in the tree are `k` steps of `CBlockIndex.back`. -/
theorem WellLinked.back_toIndex :
    ∀ {k p q : Nat} {index : BlockNode}, tree[p]? = some index → prevWalk tree k p = some q →
      (toIndex tree entries p).bind (CBlockIndex.back k) = toIndex tree entries q
  | 0, p, q, index, hp, hk => by
    cases hk
    rw [toIndex, hp]
    rfl
  | k + 1, p, q, index, hp, hk => by
    rw [prevWalk_succ] at hk
    obtain ⟨r, hr, hrq⟩ := Option.bind_eq_some_iff.mp hk
    have hprev : index.pprev = some r := by rwa [pprevOf_eq hp] at hr
    obtain ⟨parent, hparent, -⟩ := hw.pprev_height hp hprev
    have hstep : (toIndex tree entries p).bind (CBlockIndex.back (k + 1)) =
        ((toIndex tree entries p).bind CBlockIndex.pprev).bind (CBlockIndex.back k) := by
      rw [Option.bind_assoc]
      rfl
    rw [hstep, hw.pprev_toIndex entries hp hr, WellLinked.back_toIndex hparent hrq]

end Entries

/-- On every tree `AddToBlockIndex` builds, whatever the records of the blocks, the entry
`GetAncestor` finds along `pskip` and `pprev` pointers stands for what `CBlockIndex.GetAncestor`
finds by `pprev` steps from the entry it starts at. -/
theorem GetAncestor_toIndex (tree : List BlockNode) (hbuilt : Built tree) (entries : Nat → BlockEntry)
    (p : Nat) (height : Int) :
    (GetAncestor tree p height).bind (toIndex tree entries) =
      (toIndex tree entries p).bind fun c => c.GetAncestor height := by
  have hw := hbuilt.wellLinked
  cases hp : tree[p]? with
  | none => rw [GetAncestor, toIndex, hp]; rfl
  | some index =>
    have hc : toIndex tree entries p = some ⟨entries p, ancestorEntries tree entries index.nHeight p⟩ := by
      rw [toIndex, hp]
      rfl
    have hlen : (CBlockIndex.mk (entries p) (ancestorEntries tree entries index.nHeight p)).nHeight =
        index.nHeight :=
      hw.length_ancestorEntries entries hp le_rfl
    by_cases hout : height < 0 ∨ index.nHeight < height
    · rw [GetAncestor_of_out hp hout, hc, Option.bind_some, CBlockIndex.GetAncestor, if_pos (by omega)]
      rfl
    · -- in range both walks take `nHeight - height` steps back
      obtain ⟨q, hq⟩ := hw.exists_prevWalk hp (k := index.nHeight - height.toNat) (Nat.sub_le _ _)
      rw [hw.GetAncestor_eq_prevWalk hp (by omega) (by omega), hq, Option.bind_some,
        ← hw.back_toIndex entries hp hq, hc, Option.bind_some, Option.bind_some,
        CBlockIndex.GetAncestor_of_le (by omega) (by omega), hlen]

/-- Block `i` of the tree, mined at time `i`. -/
def timedEntry (i : Nat) : BlockEntry := ⟨UInt256.zero, 0, 0, UInt32.ofNat i, 0⟩

/-- A fork: blocks 1 and 3 on the genesis block, block 2 on block 1. From block 2 the
ancestor at height 0 is the genesis block, with no ancestors of its own. -/
theorem GetAncestor_toIndex_fork :
    (GetAncestor (AddToBlockIndex (AddToBlockIndex (AddToBlockIndex
        (AddToBlockIndex [] none) (some 0)) (some 1)) (some 0)) 2 0).bind
      (toIndex (AddToBlockIndex (AddToBlockIndex (AddToBlockIndex
        (AddToBlockIndex [] none) (some 0)) (some 1)) (some 0)) timedEntry) = some ⟨timedEntry 0, []⟩ ∧
    (GetAncestor (AddToBlockIndex (AddToBlockIndex (AddToBlockIndex
        (AddToBlockIndex [] none) (some 0)) (some 1)) (some 0)) 2 0).bind
      (toIndex (AddToBlockIndex (AddToBlockIndex (AddToBlockIndex
        (AddToBlockIndex [] none) (some 0)) (some 1)) (some 0)) timedEntry) =
      (toIndex (AddToBlockIndex (AddToBlockIndex (AddToBlockIndex
        (AddToBlockIndex [] none) (some 0)) (some 1)) (some 0)) timedEntry 2).bind fun c => c.GetAncestor 0 :=
  ⟨by decide, GetAncestor_toIndex _ (.link (.link (.link .genesis (by decide)) (by decide)) (by decide)) _ 2 0⟩

/-! ## Ancestors -/

theorem IsAncestor.refl (tree : List BlockNode) (p : Nat) : IsAncestor tree p p := ⟨0, rfl⟩

theorem IsAncestor.trans {tree : List BlockNode} {r q p : Nat} (hrq : IsAncestor tree r q)
    (hqp : IsAncestor tree q p) : IsAncestor tree r p := by
  obtain ⟨i, hi⟩ := hqp
  obtain ⟨j, hj⟩ := hrq
  exact ⟨i + j, by rw [prevWalk_add_of_eq hi, hj]⟩

theorem IsAncestor.of_pprevOf {tree : List BlockNode} {p q : Nat} (hq : pprevOf tree p = some q) :
    IsAncestor tree q p :=
  ⟨1, by rw [prevWalk_succ, hq]; rfl⟩

/-- An ancestor other than the entry itself is one of its parent. -/
theorem IsAncestor.to_pprevOf {tree : List BlockNode} {r p q : Nat} (h : IsAncestor tree r p) (hne : r ≠ p)
    (hq : pprevOf tree p = some q) : IsAncestor tree r q := by
  obtain ⟨k, hk⟩ := h
  cases k with
  | zero =>
    cases hk
    exact absurd rfl hne
  | succ k =>
    rw [prevWalk_succ, hq, Option.bind_some] at hk
    exact ⟨k, hk⟩

section Ancestors

variable {tree : List BlockNode} (hw : WellLinked tree)
include hw

/-- The only entry at height `0` is the genesis entry. -/
theorem WellLinked.eq_zero_of_nHeight {r : Nat} {node : BlockNode} (hr : tree[r]? = some node)
    (h0 : node.nHeight = 0) : r = 0 := by
  cases hprev : node.pprev with
  | none => exact (hw.genesis hr hprev).1
  | some q =>
    obtain ⟨parent, -, hh⟩ := hw.pprev_height hr hprev
    omega

theorem WellLinked.nHeight_le_of_isAncestor {r p : Nat} {node index : BlockNode} (hp : tree[p]? = some index)
    (hr : tree[r]? = some node) (h : IsAncestor tree r p) : node.nHeight ≤ index.nHeight := by
  obtain ⟨k, hk⟩ := h
  obtain ⟨node', hn', hh⟩ := hw.prevWalk_height hp hk
  rw [hr, Option.some.injEq] at hn'
  subst hn'
  omega

/-- An ancestor as high as the entry is the entry. -/
theorem WellLinked.eq_of_isAncestor {r p : Nat} {node index : BlockNode} (hp : tree[p]? = some index)
    (hr : tree[r]? = some node) (h : IsAncestor tree r p) (hh : node.nHeight = index.nHeight) : r = p := by
  obtain ⟨k, hk⟩ := h
  obtain ⟨node', hn', hh'⟩ := hw.prevWalk_height hp hk
  rw [hr, Option.some.injEq] at hn'
  subst hn'
  obtain rfl : k = 0 := by omega
  exact (Option.some.inj hk).symm

theorem WellLinked.isAncestor_antisymm {r p : Nat} {index : BlockNode} (hp : tree[p]? = some index)
    (hrp : IsAncestor tree r p) (hpr : IsAncestor tree p r) : r = p := by
  obtain ⟨k, hk⟩ := hrp
  obtain ⟨node, hr, hh⟩ := hw.prevWalk_height hp hk
  exact hw.eq_of_isAncestor hp hr ⟨k, hk⟩ (le_antisymm (by omega) (hw.nHeight_le_of_isAncestor hr hp hpr))

/-- An ancestor of `p` no higher than `q`, `j` steps back from `p`, is an ancestor of `q`. -/
theorem WellLinked.isAncestor_of_nHeight_le {r p q j : Nat} {node index : BlockNode}
    (hp : tree[p]? = some index) (hq : prevWalk tree j p = some q) (hrp : IsAncestor tree r p)
    (hr : tree[r]? = some node) (hle : node.nHeight + j ≤ index.nHeight) : IsAncestor tree r q := by
  obtain ⟨k, hk⟩ := hrp
  obtain ⟨node', hn', hh⟩ := hw.prevWalk_height hp hk
  rw [hr, Option.some.injEq] at hn'
  subst hn'
  refine ⟨k - j, ?_⟩
  rw [← prevWalk_add_of_eq hq, Nat.add_sub_cancel' (by omega)]
  exact hk

end Ancestors

/-! ## The last common ancestor -/

theorem commonAncestorLoop_self (tree : List BlockNode) (fuel x : Nat) :
    commonAncestorLoop tree fuel (some x) (some x) = (some x, some x) := by
  cases fuel <;> simp [commonAncestorLoop]

section LastCommonAncestor

variable {tree : List BlockNode} (hw : WellLinked tree)
include hw

/-- The loop from two entries at one height: they step back together until they meet, at
the first height where their ancestors agree, below which all their ancestors agree. -/
theorem WellLinked.commonAncestorLoop_spec :
    ∀ (fuel x y : Nat) (nx ny : BlockNode), tree[x]? = some nx → tree[y]? = some ny →
      nx.nHeight = ny.nHeight → nx.nHeight ≤ fuel →
      ∃ c, commonAncestorLoop tree fuel (some x) (some y) = (some c, some c) ∧
        IsLastCommonAncestor tree c x y := by
  intro fuel
  induction fuel with
  | zero =>
    intro x y nx ny hx hy hh hf
    -- both at height 0: the genesis entry
    obtain rfl := hw.eq_zero_of_nHeight hx (by omega)
    obtain rfl := hw.eq_zero_of_nHeight hy (by omega)
    exact ⟨0, rfl, .refl tree 0, .refl tree 0, fun r hr _ => hr⟩
  | succ fuel ih =>
    intro x y nx ny hx hy hh hf
    by_cases hxy : x = y
    · subst hxy
      exact ⟨x, commonAncestorLoop_self tree _ x, .refl tree x, .refl tree x, fun r hr _ => hr⟩
    · have hpos : 0 < nx.nHeight := by
        rcases Nat.eq_zero_or_pos nx.nHeight with h0 | h0
        · exact absurd ((hw.eq_zero_of_nHeight hx h0).trans (hw.eq_zero_of_nHeight hy (by omega)).symm) hxy
        · exact h0
      obtain ⟨x', px, hx', hpx, hhx⟩ := hw.pprevOf_of_pos hx hpos
      obtain ⟨y', py, hy', hpy, hhy⟩ := hw.pprevOf_of_pos hy (by omega)
      obtain ⟨c, hloop, hcx, hcy, hall⟩ := ih x' y' px py hpx hpy (by omega) (by omega)
      have hstep : commonAncestorLoop tree (fuel + 1) (some x) (some y) =
          commonAncestorLoop tree fuel (some x') (some y') := by
        rw [commonAncestorLoop, if_pos ⟨by simpa using hxy, rfl, rfl⟩, Option.bind_some, Option.bind_some,
          hx', hy']
      refine ⟨c, hstep.trans hloop, hcx.trans (.of_pprevOf hx'), hcy.trans (.of_pprevOf hy'), ?_⟩
      intro r hrx hry
      -- a common ancestor is neither entry, since neither is an ancestor of the other
      obtain ⟨nr, hr⟩ : ∃ nr, tree[r]? = some nr := by
        obtain ⟨k, hk⟩ := hrx
        obtain ⟨nr, hr, -⟩ := hw.prevWalk_height hx hk
        exact ⟨nr, hr⟩
      have hnex : r ≠ x := by
        rintro rfl
        exact hxy (hw.eq_of_isAncestor hy hx hry hh)
      have hney : r ≠ y := by
        rintro rfl
        exact hxy (hw.eq_of_isAncestor hx hy hrx hh.symm).symm
      exact hall r (hrx.to_pprevOf hnex hx') (hry.to_pprevOf hney hy')

/-- `LastCommonAncestor` finds the last common ancestor. -/
theorem WellLinked.LastCommonAncestor_spec {pa pb : Nat} {a b : BlockNode} (ha : tree[pa]? = some a)
    (hb : tree[pb]? = some b) :
    ∃ c, LastCommonAncestor tree pa pb = some c ∧ IsLastCommonAncestor tree c pa pb := by
  -- the ancestors of both at the lower height
  obtain ⟨a', ha'⟩ := hw.exists_prevWalk ha (k := a.nHeight - min a.nHeight b.nHeight) (by omega)
  obtain ⟨b', hb'⟩ := hw.exists_prevWalk hb (k := b.nHeight - min a.nHeight b.nHeight) (by omega)
  obtain ⟨na, hna, hha⟩ := hw.prevWalk_height ha ha'
  obtain ⟨nb, hnb, hhb⟩ := hw.prevWalk_height hb hb'
  have hpair : (if a.nHeight > b.nHeight then (GetAncestor tree pa b.nHeight, some pb)
      else if b.nHeight > a.nHeight then (some pa, GetAncestor tree pb a.nHeight)
      else (some pa, some pb)) = (some a', some b') := by
    split_ifs with hab hba
    · rw [hw.GetAncestor_eq_prevWalk ha (by omega) (by omega), Int.toNat_natCast,
        show a.nHeight - b.nHeight = a.nHeight - min a.nHeight b.nHeight by omega, ha',
        show b.nHeight - min a.nHeight b.nHeight = 0 by omega] at *
      cases hb'
      rfl
    · rw [hw.GetAncestor_eq_prevWalk hb (by omega) (by omega), Int.toNat_natCast,
        show b.nHeight - a.nHeight = b.nHeight - min a.nHeight b.nHeight by omega, hb',
        show a.nHeight - min a.nHeight b.nHeight = 0 by omega] at *
      cases ha'
      rfl
    · rw [show a.nHeight - min a.nHeight b.nHeight = 0 by omega] at ha'
      rw [show b.nHeight - min a.nHeight b.nHeight = 0 by omega] at hb'
      cases ha'
      cases hb'
      rfl
  obtain ⟨c, hloop, hca, hcb, hall⟩ := hw.commonAncestorLoop_spec (min a.nHeight b.nHeight) a' b' na nb
    hna hnb (by omega) (by omega)
  refine ⟨c, ?_, hca.trans ⟨_, ha'⟩, hcb.trans ⟨_, hb'⟩, fun r hra hrb => ?_⟩
  · simp only [LastCommonAncestor, ha, hb, hpair, hloop, if_true]
  · obtain ⟨k, hk⟩ := hra
    obtain ⟨nr, hr, -⟩ := hw.prevWalk_height ha hk
    have hlea := hw.nHeight_le_of_isAncestor ha hr ⟨k, hk⟩
    have hleb := hw.nHeight_le_of_isAncestor hb hr hrb
    exact hall r (hw.isAncestor_of_nHeight_le ha ha' ⟨k, hk⟩ hr (by omega))
      (hw.isAncestor_of_nHeight_le hb hb' hrb hr (by omega))

end LastCommonAncestor

/-! ## The vector of the active chain -/

theorem getElem?_ancestorsOf (tree : List BlockNode) (tip nHeight h : Nat) :
    (ancestorsOf tree tip nHeight)[h]? = if h ≤ nHeight then some (prevWalk tree (nHeight - h) tip) else none := by
  rw [ancestorsOf, List.getElem?_map]
  by_cases hh : h ≤ nHeight
  · rw [List.getElem?_range (by omega), if_pos hh]
    rfl
  · rw [List.getElem?_eq_none (by simp; omega), if_neg hh]
    rfl

theorem length_ancestorsOf (tree : List BlockNode) (tip nHeight : Nat) :
    (ancestorsOf tree tip nHeight).length = nHeight + 1 := by
  rw [ancestorsOf, List.length_map, List.length_range]

theorem getElem?_resize {α : Type} (v : List α) (n : Nat) (value : α) (h : Nat) :
    (resize v n value)[h]? = if h < n then some (v.getD h value) else none := by
  rw [resize, List.getD_eq_getElem?_getD]
  by_cases hv : h < v.length
  · by_cases hn : h < n
    · rw [List.getElem?_append_left (by simp; omega), List.getElem?_take, if_pos hn, if_pos hn,
        List.getElem?_eq_getElem hv, Option.getD_some]
    · rw [if_neg hn, List.getElem?_eq_none]
      simp only [List.length_append, List.length_take, List.length_replicate]
      omega
  · rw [List.getElem?_eq_none (l := v) (by omega), Option.getD_none]
    by_cases hn : h < n
    · rw [if_pos hn, List.getElem?_append_right (by simp; omega), List.getElem?_replicate, if_pos (by simp; omega)]
    · rw [if_neg hn, List.getElem?_eq_none]
      simp only [List.length_append, List.length_take, List.length_replicate]
      omega

theorem length_resize {α : Type} (v : List α) (n : Nat) (value : α) : (resize v n value).length = n := by
  simp only [resize, List.length_append, List.length_take, List.length_replicate]
  omega

theorem CChain.get_of_vChain {tree : List BlockNode} {chain : CChain} {tip nHeight : Nat}
    (hv : chain.vChain = ancestorsOf tree tip nHeight) (h : Int) :
    chain.get h = if 0 ≤ h ∧ h ≤ nHeight then prevWalk tree (nHeight - h.toNat) tip else none := by
  rw [CChain.get, hv, length_ancestorsOf, List.getD_eq_getElem?_getD, getElem?_ancestorsOf]
  split_ifs <;> first | rfl | omega

theorem CChain.Height_of_vChain {tree : List BlockNode} {chain : CChain} {tip nHeight : Nat}
    (hv : chain.vChain = ancestorsOf tree tip nHeight) : chain.Height = nHeight := by
  rw [CChain.Height, hv, length_ancestorsOf]
  omega

theorem AncestorClosed.resize {tree : List BlockNode} {v : List (Option Nat)} (hv : ∀ n, AncestorClosed tree v n)
    (m n : Nat) : AncestorClosed tree (BlockTree.resize v m none) n := by
  intro h r hh hslot h' hh'
  rw [getElem?_resize] at hslot ⊢
  split_ifs at hslot with hm
  rw [List.getD_eq_getElem?_getD] at hslot
  cases hvh : v[h]? with
  | none => simp [hvh] at hslot
  | some x =>
    rw [hvh, Option.getD_some, Option.some.injEq] at hslot
    subst hslot
    rw [if_pos (by omega), List.getD_eq_getElem?_getD, hv h h r le_rfl hvh h' hh', Option.getD_some]

/-- The ancestors of an entry are closed under taking ancestors. -/
theorem ancestorClosed_ancestorsOf (tree : List BlockNode) (tip nHeight n : Nat) :
    AncestorClosed tree (ancestorsOf tree tip nHeight) n := by
  intro h r _ hslot h' hh'
  rw [getElem?_ancestorsOf] at hslot ⊢
  split_ifs at hslot with hle
  rw [if_pos (by omega), ← prevWalk_add_of_eq (Option.some.inj hslot)]
  congr 2
  omega

theorem IsActiveChain.ancestorClosed {tree : List BlockNode} {chain : CChain} (hc : IsActiveChain tree chain)
    (n : Nat) : AncestorClosed tree chain.vChain n := by
  rcases hc with hnil | ⟨tip, index, -, hv⟩
  · intro h r _ hslot
    simp [hnil] at hslot
  · rw [hv]
    exact ancestorClosed_ancestorsOf tree tip index.nHeight n

section ActiveChain

variable {tree : List BlockNode} (hw : WellLinked tree)
include hw

/-- The loop of `SetTip` from an ancestor `q` of the new tip: the slots above `q` already
hold the new chain, those up to `q` are closed under ancestors, and the loop ends with the
whole new chain, either where a slot already holds its entry or after the genesis entry. -/
theorem WellLinked.setTipLoop_eq {tip nHeight : Nat} :
    ∀ (fuel : Nat) (v : List (Option Nat)) (q : Nat) (nq : BlockNode), tree[q]? = some nq →
      nq.nHeight ≤ nHeight → prevWalk tree (nHeight - nq.nHeight) tip = some q → nq.nHeight + 1 ≤ fuel →
      v.length = nHeight + 1 →
      (∀ h, nq.nHeight < h → h ≤ nHeight → v[h]? = some (prevWalk tree (nHeight - h) tip)) →
      AncestorClosed tree v nq.nHeight →
      CChain.setTipLoop tree fuel v (some q) = ancestorsOf tree tip nHeight := by
  intro fuel
  induction fuel with
  | zero => intro v q nq _ _ _ hfuel; omega
  | succ fuel ih =>
    intro v q nq hq hle htip hfuel hlen habove hbelow
    -- the slot of `q` within the vector
    have hslotq : ∀ x, v.getD nq.nHeight none = x → v[nq.nHeight]? = some x := by
      intro x hx
      rw [List.getD_eq_getElem?_getD, List.getElem?_eq_getElem (by omega), Option.getD_some] at hx
      rw [List.getElem?_eq_getElem (by omega), hx]
    rw [CChain.setTipLoop, hq]
    simp only
    split_ifs with hne
    · -- not there yet: write `q` and go on to its parent
      have hset : ∀ h, h ≠ nq.nHeight → (v.set nq.nHeight (some q))[h]? = v[h]? :=
        fun h hh => List.getElem?_set_ne (Ne.symm hh)
      have hsetq : (v.set nq.nHeight (some q))[nq.nHeight]? = some (some q) := by
        rw [List.getElem?_set_self (by omega)]
      cases hprev : nq.pprev with
      | none =>
        have h0 := (hw.genesis hq hprev).2
        have hdone : ∀ f, CChain.setTipLoop tree f (v.set nq.nHeight (some q)) none =
            v.set nq.nHeight (some q) := fun f => by cases f <;> rfl
        rw [hdone]
        apply List.ext_getElem?
        intro h
        rw [getElem?_ancestorsOf]
        by_cases hh : h = nq.nHeight
        · subst hh
          rw [hsetq, if_pos hle, htip]
        · rw [hset h hh]
          split_ifs with hhle
          · exact habove h (by omega) hhle
          · exact List.getElem?_eq_none (by omega)
      | some q' =>
        obtain ⟨parent, hq', hh⟩ := hw.pprev_height hq hprev
        have htip' : prevWalk tree (nHeight - parent.nHeight) tip = some q' := by
          rw [show nHeight - parent.nHeight = (nHeight - nq.nHeight) + 1 by omega,
            prevWalk_add_of_eq htip, prevWalk_succ, pprevOf_eq hq, hprev]
          rfl
        refine ih _ q' parent hq' (by omega) htip' (by omega) (by rw [List.length_set, hlen]) ?_ ?_
        · intro h hlt hhle
          by_cases hh' : h = nq.nHeight
          · subst hh'
            rw [hsetq, htip]
          · rw [hset h hh']
            exact habove h (by omega) hhle
        · intro h r hhle hslot h' hh'
          rw [hset h (by omega)] at hslot
          rw [hset h' (by omega)]
          exact hbelow h r (by omega) hslot h' hh'
    · -- `q` is there: the slots below hold its ancestors, which are the new tip's
      have hqslot := hslotq _ (not_not.mp hne)
      apply List.ext_getElem?
      intro h
      rw [getElem?_ancestorsOf]
      split_ifs with hhle
      · by_cases hlt : nq.nHeight < h
        · exact habove h hlt hhle
        · rw [hbelow nq.nHeight q le_rfl hqslot h (by omega), ← prevWalk_add_of_eq htip]
          congr 2
          omega
      · exact List.getElem?_eq_none (by omega)

/-- `SetTip` to an entry of the tree, from an active chain, leaves the chain of its ancestors. -/
theorem WellLinked.SetTip_vChain {chain : CChain} (hc : IsActiveChain tree chain) {p : Nat} {index : BlockNode}
    (hp : tree[p]? = some index) :
    (CChain.SetTip tree chain (some p)).vChain = ancestorsOf tree p index.nHeight := by
  rw [CChain.SetTip, hp]
  exact hw.setTipLoop_eq _ _ p index hp le_rfl (by rw [Nat.sub_self]; rfl) le_rfl (length_resize _ _ _)
    (fun h hlt hle => absurd hle (by omega))
    (AncestorClosed.resize hc.ancestorClosed _ _)

/-- The run lemma of the chain: every `SetTip` keeps it active. -/
theorem WellLinked.isActiveChain_SetTip {chain : CChain} (hc : IsActiveChain tree chain) (pindex : Option Nat) :
    IsActiveChain tree (CChain.SetTip tree chain pindex) := by
  cases pindex with
  | none => exact Or.inl rfl
  | some p =>
    cases hp : tree[p]? with
    | none =>
      rw [CChain.SetTip, hp]
      exact hc
    | some index => exact Or.inr ⟨p, index, hp, hw.SetTip_vChain hc hp⟩

theorem WellLinked.isActiveChain_foldl (ops : List (Option Nat)) :
    IsActiveChain tree (ops.foldl (CChain.SetTip tree) ⟨[]⟩) := by
  suffices h : ∀ chain, IsActiveChain tree chain → IsActiveChain tree (ops.foldl (CChain.SetTip tree) chain) from
    h _ (Or.inl rfl)
  induction ops with
  | nil => exact fun _ hc => hc
  | cons op ops ih => exact fun chain hc => ih _ (hw.isActiveChain_SetTip hc op)

/-- In the chain of `tip`, the entries are the ancestors of `tip`. -/
theorem WellLinked.Contains_iff {chain : CChain} {tip r : Nat} {index node : BlockNode}
    (htip : tree[tip]? = some index) (hv : chain.vChain = ancestorsOf tree tip index.nHeight)
    (hr : tree[r]? = some node) : chain.Contains tree r = true ↔ IsAncestor tree r tip := by
  simp only [CChain.Contains, hr]
  rw [CChain.get_of_vChain hv, beq_iff_eq, Int.toNat_natCast]
  constructor
  · intro h
    split_ifs at h
    exact ⟨_, h⟩
  · rintro ⟨k, hk⟩
    obtain ⟨node', hn', hh⟩ := hw.prevWalk_height htip hk
    rw [hr, Option.some.injEq] at hn'
    subst hn'
    rw [if_pos (by omega), show index.nHeight - node.nHeight = k by omega]
    exact hk

/-- The loop of `FindFork` from an ancestor `s` of `p` above which no ancestor of `p` is in
the chain: it stops at the first one that is, at the latest at the genesis entry. -/
theorem WellLinked.findForkLoop_spec {chain : CChain} {p : Nat} (hroot : chain.Contains tree 0 = true) :
    ∀ (fuel s : Nat) (ns : BlockNode), tree[s]? = some ns → ns.nHeight + 1 ≤ fuel → IsAncestor tree s p →
      (∀ r, IsAncestor tree r p → chain.Contains tree r = true → IsAncestor tree r s) →
      ∃ q, CChain.findForkLoop tree chain fuel (some s) = some q ∧ IsFork tree chain q p := by
  intro fuel
  induction fuel with
  | zero => intro s ns _ hfuel; omega
  | succ fuel ih =>
    intro s ns hs hfuel hsp hall
    rw [CChain.findForkLoop]
    split_ifs with hc
    · exact ⟨s, rfl, hsp, hc, hall⟩
    · have hpos : 0 < ns.nHeight := by
        rcases Nat.eq_zero_or_pos ns.nHeight with h0 | h0
        · exact absurd (hw.eq_zero_of_nHeight hs h0 ▸ hroot) hc
        · exact h0
      obtain ⟨s', parent, hs', hparent, hh⟩ := hw.pprevOf_of_pos hs hpos
      rw [hs']
      exact ih s' parent hparent (by omega) ((IsAncestor.of_pprevOf hs').trans hsp)
        fun r hrp hrc => (hall r hrp hrc).to_pprevOf (fun h => hc (h ▸ hrc)) hs'

/-- `FindFork` finds the highest ancestor in an active chain, and nothing when the chain is
empty. -/
theorem WellLinked.FindFork_iff {chain : CChain} (hc : IsActiveChain tree chain) {p : Nat} {index : BlockNode}
    (hp : tree[p]? = some index) (q : Nat) :
    CChain.FindFork tree chain (some p) = some q ↔ IsFork tree chain q p := by
  rcases hc with hnil | ⟨tip, tipIndex, htip, hv⟩
  · -- the empty chain: `Height()` is `-1`, and no entry is in it
    have hget : ∀ r, chain.Contains tree r = false := by
      intro r
      rw [CChain.Contains]
      split
      · simp [CChain.get, hnil]
      · rfl
    have hheight : chain.Height = -1 := by simp [CChain.Height, hnil]
    rw [CChain.FindFork, hp]
    simp only [hheight, GetAncestor_of_out hp (Or.inl (by omega : (-1 : Int) < 0))]
    rw [if_pos (by omega)]
    constructor
    · intro h
      simp [CChain.findForkLoop] at h
    · intro ⟨_, hq, _⟩
      simp [hget] at hq
  · -- the chain of `tip`: walk back from the ancestor of `p` at the lower of the two heights
    obtain ⟨s, hs⟩ := hw.exists_prevWalk hp (k := index.nHeight - min index.nHeight tipIndex.nHeight)
      (by omega)
    obtain ⟨ns, hns, hhs⟩ := hw.prevWalk_height hp hs
    obtain ⟨root, hroot⟩ := hw.exists_prevWalk htip (k := tipIndex.nHeight) le_rfl
    obtain ⟨nroot, hnroot, hhroot⟩ := hw.prevWalk_height htip hroot
    have hroot0 : root = 0 := hw.eq_zero_of_nHeight hnroot (by omega)
    subst hroot0
    have hstart : (if (index.nHeight : Int) > chain.Height then GetAncestor tree p chain.Height else some p) =
        some s := by
      rw [CChain.Height_of_vChain hv]
      split_ifs with hgt
      · rw [hw.GetAncestor_eq_prevWalk hp (by omega) (by omega), Int.toNat_natCast, ← hs]
        congr 1
        omega
      · rw [← hs, show index.nHeight - min index.nHeight tipIndex.nHeight = 0 by omega]
        rfl
    obtain ⟨q', hloop, hfork⟩ := hw.findForkLoop_spec ((hw.Contains_iff htip hv hnroot).mpr ⟨_, hroot⟩)
      (index.nHeight + 1) s ns hns (by omega) ⟨_, hs⟩ (by
        intro r hrp hrc
        obtain ⟨k, hk⟩ := hrp
        obtain ⟨nr, hr, -⟩ := hw.prevWalk_height hp hk
        have hle := hw.nHeight_le_of_isAncestor htip hr ((hw.Contains_iff htip hv hr).mp hrc)
        have hle' := hw.nHeight_le_of_isAncestor hp hr ⟨k, hk⟩
        exact hw.isAncestor_of_nHeight_le hp hs ⟨k, hk⟩ hr (by omega))
    have hfind : CChain.FindFork tree chain (some p) = some q' := by
      rw [CChain.FindFork, hp]
      simp only [hstart, hloop]
    rw [hfind, Option.some.injEq]
    constructor
    · rintro rfl
      exact hfork
    · intro hq
      obtain ⟨k, hk⟩ := hfork.1
      obtain ⟨nq', hnq', -⟩ := hw.prevWalk_height hp hk
      exact (hw.isAncestor_antisymm hnq' (hfork.2.2 q hq.1 hq.2.1) (hq.2.2 q' hfork.1 hfork.2.1)).symm

end ActiveChain

/-- Over every tree `AddToBlockIndex` builds: `GetAncestor` finds the ancestor `pprev` steps
reach, `LastCommonAncestor` the last common ancestor, every run of `SetTip` leaves the
chain of ancestors of the last tip, and `FindFork` finds the highest ancestor in the chain. -/
theorem GetAncestor_SetTip_FindFork (tree : List BlockNode) (hbuilt : Built tree) :
    (∀ (b : Nat) (index : BlockNode) (height : Int), tree[b]? = some index →
      (0 ≤ height → height ≤ index.nHeight →
        ∃ q, GetAncestor tree b height = some q ∧ prevWalk tree (index.nHeight - height.toNat) b = some q) ∧
      (height < 0 ∨ index.nHeight < height → GetAncestor tree b height = none)) ∧
    (∀ a b : Nat, a < tree.length → b < tree.length →
      ∃ c, LastCommonAncestor tree a b = some c ∧ IsLastCommonAncestor tree c a b) ∧
    (∀ (ops : List (Option Nat)) (tip : Nat) (index : BlockNode), tree[tip]? = some index →
      (CChain.SetTip tree (ops.foldl (CChain.SetTip tree) ⟨[]⟩) (some tip)).Height = index.nHeight ∧
      ∀ h : Int, 0 ≤ h → h ≤ index.nHeight →
        (CChain.SetTip tree (ops.foldl (CChain.SetTip tree) ⟨[]⟩) (some tip)).get h = GetAncestor tree tip h) ∧
    (∀ (ops : List (Option Nat)) (p q : Nat), p < tree.length →
      (CChain.FindFork tree (ops.foldl (CChain.SetTip tree) ⟨[]⟩) (some p) = some q ↔
        IsFork tree (ops.foldl (CChain.SetTip tree) ⟨[]⟩) q p)) := by
  have hw := hbuilt.wellLinked
  have hnode : ∀ {p : Nat}, p < tree.length → ∃ index, tree[p]? = some index :=
    fun hp => ⟨_, List.getElem?_eq_getElem hp⟩
  refine ⟨fun b index height hb => ⟨fun h0 hle => ?_, fun hout => GetAncestor_of_out hb hout⟩,
    fun a b ha hb => ?_, fun ops tip index htip => ?_, fun ops p q hp => ?_⟩
  · obtain ⟨q, hq⟩ := hw.exists_prevWalk hb (k := index.nHeight - height.toNat) (by omega)
    exact ⟨q, by rw [hw.GetAncestor_eq_prevWalk hb h0 hle, hq], hq⟩
  · obtain ⟨na, hna⟩ := hnode ha
    obtain ⟨nb, hnb⟩ := hnode hb
    exact hw.LastCommonAncestor_spec hna hnb
  · have hv := hw.SetTip_vChain (hw.isActiveChain_foldl ops) htip
    refine ⟨CChain.Height_of_vChain hv, fun h h0 hle => ?_⟩
    rw [CChain.get_of_vChain hv, if_pos ⟨h0, hle⟩, hw.GetAncestor_eq_prevWalk htip h0 hle]
  · obtain ⟨index, hindex⟩ := hnode hp
    exact hw.FindFork_iff (hw.isActiveChain_foldl ops) hindex q

theorem GetAncestor_SetTip_FindFork_fork :
    ∃ c, LastCommonAncestor (AddToBlockIndex (AddToBlockIndex (AddToBlockIndex
        (AddToBlockIndex [] none) (some 0)) (some 1)) (some 0)) 2 3 = some c ∧
      IsLastCommonAncestor (AddToBlockIndex (AddToBlockIndex (AddToBlockIndex
        (AddToBlockIndex [] none) (some 0)) (some 1)) (some 0)) c 2 3 :=
  (GetAncestor_SetTip_FindFork _ (.link (.link (.link .genesis (by decide)) (by decide)) (by decide))).2.1
    2 3 (by decide) (by decide)

end BlockTree

end BitcoinPQ

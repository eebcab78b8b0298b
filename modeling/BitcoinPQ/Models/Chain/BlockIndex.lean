import BitcoinPQ.Models.Primitives.Block
import Mathlib.Data.List.Sort

/-!
# Block index entries

`chain.h`: a `CBlockIndex` is reached through `pprev` pointers back to the genesis
block. An entry is modelled by the record of its block followed by the records of its
ancestors, parent first, so that following `pprev` drops the first record and two
entries are one block exactly when their chains agree. `GetAncestor` walks `pskip`
pointers in the source; it finds the ancestor that `pprev` steps reach, and is
modelled by those steps. `SkipList.lean` models the pointers and proves that the walk
of the source finds that entry.
-/

namespace BitcoinPQ

/-- What a `CBlockIndex` keeps of its own block that the modelled code reads. -/
structure BlockEntry where
  phashBlock : UInt256
  nMajorVersion : UInt8
  nMinorVersion : Int32
  nTime : UInt32
  nBits : UInt32
  deriving DecidableEq

/-- `CBlockIndex`: the entry of a block, then those of its ancestors, parent first. -/
structure CBlockIndex where
  entry : BlockEntry
  ancestors : List BlockEntry
  deriving DecidableEq

/-- `CBlockIndex::nMedianTimeSpan`. -/
def nMedianTimeSpan : Nat := 11

namespace CBlockIndex

def nHeight (p : CBlockIndex) : Nat := p.ancestors.length

def pprev (p : CBlockIndex) : Option CBlockIndex :=
  match p.ancestors with
  | [] => none
  | e :: es => some ⟨e, es⟩

def GetBlockTime (p : CBlockIndex) : Int := p.entry.nTime.toNat

/-- `CBlockIndex::GetMedianTimePast`: the median of the times of the block and up to
ten ancestors, the upper one of the two middle times when there is an even number.
`std::sort` is modelled by an insertion sort: both give the sorted list. -/
def GetMedianTimePast (p : CBlockIndex) : Int :=
  let times := ((p.entry :: p.ancestors).take nMedianTimeSpan).map fun e => (e.nTime.toNat : Int)
  let sorted := times.insertionSort fun a b => a ≤ b
  sorted.getD (sorted.length / 2) 0

/-- `k` steps along `pprev`. -/
def back : Nat → CBlockIndex → Option CBlockIndex
  | 0, p => some p
  | k + 1, p => p.pprev.bind (back k)

/-- `CBlockIndex::GetAncestor`: the ancestor at `height`, or `nullptr` outside the chain. -/
def GetAncestor (p : CBlockIndex) (height : Int) : Option CBlockIndex :=
  if height > p.nHeight ∨ height < 0 then none
  else back (p.nHeight - height.toNat) p

@[simp] theorem nHeight_mk (e : BlockEntry) (es : List BlockEntry) :
    (CBlockIndex.mk e es).nHeight = es.length := rfl

theorem nHeight_of_pprev {p q : CBlockIndex} (h : p.pprev = some q) : p.nHeight = q.nHeight + 1 := by
  rcases p with ⟨e, _ | ⟨e', es⟩⟩
  · cases h
  · cases h
    rfl

/-! ## Steps back along the chain -/

theorem back_add (i j : Nat) (p : CBlockIndex) : back (i + j) p = (back i p).bind (back j) := by
  induction i generalizing p with
  | zero => rw [Nat.zero_add]; rfl
  | succ i ih =>
    rw [Nat.add_right_comm, back, back, Option.bind_assoc]
    exact congrArg p.pprev.bind (funext ih)

theorem nHeight_back {i : Nat} {p q : CBlockIndex} (h : back i p = some q) : q.nHeight + i = p.nHeight := by
  induction i generalizing p with
  | zero =>
    cases h
    rfl
  | succ i ih =>
    rw [back] at h
    obtain ⟨r, hr, hq⟩ := Option.bind_eq_some_iff.mp h
    rw [nHeight_of_pprev hr, ← ih hq]
    omega

theorem exists_back {i : Nat} {p : CBlockIndex} (h : i ≤ p.nHeight) : ∃ q, back i p = some q := by
  induction i generalizing p with
  | zero => exact ⟨p, rfl⟩
  | succ i ih =>
    rcases p with ⟨e, _ | ⟨e', es⟩⟩
    · simp at h
    · exact ih (p := ⟨e', es⟩) (by simp at h ⊢; omega)

theorem GetAncestor_of_le {p : CBlockIndex} {height : Int} (h0 : 0 ≤ height) (h : height ≤ p.nHeight) :
    p.GetAncestor height = back (p.nHeight - height.toNat) p := by
  rw [GetAncestor, if_neg (by omega)]

/-- What `GetAncestor` finds is an ancestor at the height asked for. -/
theorem GetAncestor_eq_some {p q : CBlockIndex} {height : Int} (h : p.GetAncestor height = some q) :
    ∃ i, back i p = some q ∧ (q.nHeight : Int) = height := by
  rw [GetAncestor] at h
  split_ifs at h with hout
  refine ⟨_, h, ?_⟩
  have hh := nHeight_back h
  have hnn : (0 : Int) ≤ height := by omega
  rw [← Int.toNat_of_nonneg hnn]
  omega

theorem GetAncestor_of_neg {p : CBlockIndex} {height : Int} (h : height < 0) : p.GetAncestor height = none := by
  rw [GetAncestor, if_pos (Or.inr h)]

theorem exists_GetAncestor {p : CBlockIndex} {height : Int} (h0 : 0 ≤ height) (h : height ≤ p.nHeight) :
    ∃ q, p.GetAncestor height = some q := by
  rw [GetAncestor_of_le h0 h]
  exact exists_back (by omega)

/-- Block times are unsigned, so their median is never negative. -/
theorem GetMedianTimePast_nonneg (p : CBlockIndex) : 0 ≤ p.GetMedianTimePast := by
  have hnonneg : ∀ l : List Int, (∀ t ∈ l, 0 ≤ t) → ∀ i, 0 ≤ l.getD i 0 := by
    intro l hl i
    rw [List.getD_eq_getElem?_getD]
    cases hget : l[i]? with
    | none => exact le_refl 0
    | some t => exact hl t (List.mem_of_getElem? hget)
  apply hnonneg
  intro t ht
  -- the sorted times are the times of the blocks, which are casts of naturals
  obtain ⟨e, -, rfl⟩ := List.mem_map.mp ((List.perm_insertionSort _ _).subset ht)
  exact Int.natCast_nonneg _

end CBlockIndex

end BitcoinPQ

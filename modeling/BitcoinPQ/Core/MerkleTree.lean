import Mathlib.Data.List.Nodup
import Mathlib.Data.Nat.Find
import Mathlib.Data.Nat.Log
import Mathlib.Tactic.Linarith

/-!
# Merkle trees that pair an odd last node with itself

A level of hashes goes up to the next by hashing adjacent pairs, the last node of a
level of odd length with itself, and the root is the first level with one node. Node
`i` of level `j` stands for the leaves `[i * 2 ^ j, (i + 1) * 2 ^ j)`; it is complete when
all of them are present.

Three facts are proved here. Level `j` of a tree over `n` leaves has `⌈n / 2 ^ j⌉` nodes
and the root is the node of level `⌈log₂ n⌉`. The path of a leaf, each node on it
hashed with its sibling, rebuilds the root. Two equal sibling nodes of complete nodes
are two equal siblings; conversely, under a hash with no collision between the pairs of
one level, equal siblings anywhere imply equal complete siblings, since a complete node
equal to an incomplete one must repeat, below it, the pairing of a node with itself.
-/

namespace MerkleTree

variable {α : Type} (hash : α → α → α)

/-- One level up. -/
def up : List α → List α
  | [] => []
  | [x] => [hash x x]
  | x :: y :: rest => hash x y :: up rest

/-- Level `j` of the tree over `l`. -/
def levels (l : List α) : Nat → List α
  | 0 => l
  | j + 1 => up hash (levels l j)

/-- The number of nodes of level `j` over `n` leaves. -/
def size (n : Nat) : Nat → Nat
  | 0 => n
  | j + 1 => (size n j + 1) / 2

/-- Levels go up until one node is left, with at most `fuel` passes. -/
def rootLoop : Nat → List α → Option α
  | _, [] => none
  | _, [x] => some x
  | 0, _ :: _ :: _ => none
  | fuel + 1, x :: y :: rest => rootLoop fuel (up hash (x :: y :: rest))

/-- The root of the tree over `l`; a level has fewer nodes than the one below, so
`l.length` passes are enough. -/
def root (l : List α) : Option α := rootLoop hash l.length l

/-- The pair hashed into node `i` of the level above. -/
def children (level : List α) (i : Nat) : Option (α × α) :=
  level[2 * i]?.map fun x => (x, level[2 * i + 1]?.getD x)

/-- Some pair of the level holds two equal nodes; the last node of an odd level, paired
with itself, does not count. -/
def siblingsEqual [DecidableEq α] : List α → Bool
  | x :: y :: rest => x == y || siblingsEqual rest
  | _ => false

/-- The position of the node paired with node `i` of a level of `size` nodes. -/
def siblingIndex (size i : Nat) : Nat :=
  if i % 2 = 1 then i - 1 else if i + 1 < size then i + 1 else i

/-- Up the path of the node at `index`, hashed with the given siblings one level after
the other. -/
def pathRoot (x : α) : List α → Nat → α
  | [], _ => x
  | s :: branch, index => pathRoot (if index % 2 = 1 then hash s x else hash x s) branch (index / 2)

/-- Some level pairs two equal nodes. -/
def Mutated [DecidableEq α] (l : List α) : Prop :=
  ∃ j, siblingsEqual (levels hash l j) = true

/-- Some pair of sibling nodes that are both complete holds two equal nodes. -/
def CompleteMutated (l : List α) : Prop :=
  ∃ j i x, (i + 1) * 2 ^ (j + 1) ≤ l.length ∧
    (levels hash l j)[2 * i]? = some x ∧ (levels hash l j)[2 * i + 1]? = some x

/-- No two different pairs of one level hash to the same node. -/
def CollisionFree (l : List α) : Prop :=
  ∀ j i i' p p', children (levels hash l j) i = some p → children (levels hash l j) i' = some p' →
    hash p.1 p.2 = hash p'.1 p'.2 → p = p'

/-! ## Levels -/

theorem length_up : ∀ l : List α, (up hash l).length = (l.length + 1) / 2
  | [] => by simp [up]
  | [_] => by simp [up]
  | _ :: _ :: rest => by
    simp only [up, List.length_cons, length_up rest]
    omega

theorem getElem?_up : ∀ (l : List α) (i : Nat), (up hash l)[i]? = (children l i).map fun p => hash p.1 p.2
  | [], _ => rfl
  | [x], 0 => rfl
  | [x], i + 1 => by simp [up, children]
  | x :: y :: rest, 0 => rfl
  | x :: y :: rest, i + 1 => by
    rw [up, List.getElem?_cons_succ, getElem?_up rest i]
    simp only [children, show 2 * (i + 1) = 2 * i + 2 by omega, show 2 * i + 2 + 1 = 2 * i + 1 + 2 by omega,
      List.getElem?_cons_succ]

@[simp] theorem levels_zero (l : List α) : levels hash l 0 = l := rfl

theorem levels_succ (l : List α) (j : Nat) : levels hash l (j + 1) = up hash (levels hash l j) := rfl

theorem length_levels (l : List α) : ∀ j, (levels hash l j).length = size l.length j
  | 0 => rfl
  | j + 1 => by rw [levels_succ, length_up, length_levels l j, size]

/-- Level `j` has `⌈n / 2 ^ j⌉` nodes. -/
theorem size_eq (n : Nat) : ∀ j, size n j = (n + 2 ^ j - 1) / 2 ^ j
  | 0 => by simp [size]
  | j + 1 => by
    have hp : 0 < 2 ^ j := Nat.two_pow_pos j
    rw [size, size_eq n j, ← Nat.add_div_right _ hp, Nat.div_div_eq_div_mul, ← Nat.pow_succ]
    congr 1
    rw [Nat.pow_succ]
    omega

/-- The nodes of level `j` come from the leaves in blocks of `2 ^ j`. -/
theorem lt_size_iff {n j i : Nat} : i < size n j ↔ i * 2 ^ j < n := by
  have hp := Nat.two_pow_pos j
  rw [size_eq, ← Nat.add_one_le_iff, Nat.le_div_iff_mul_le hp, Nat.succ_mul]
  omega

theorem size_eq_one_iff {n j : Nat} (hn : 0 < n) : size n j = 1 ↔ n ≤ 2 ^ j := by
  have h0 : 0 < size n j := lt_size_iff.mpr (by simpa using hn)
  have h1 : 1 < size n j ↔ 2 ^ j < n := by rw [lt_size_iff, Nat.one_mul]
  omega

theorem one_lt_size {n j : Nat} (h : 2 ^ j < n) : 1 < size n j := by
  rw [lt_size_iff, Nat.one_mul]
  exact h

theorem children_of_pair {level : List α} {i : Nat} {x y : α} (hx : level[2 * i]? = some x)
    (hy : level[2 * i + 1]? = some y) : children level i = some (x, y) := by
  rw [children, hx, hy]
  rfl

theorem children_of_last {level : List α} {i : Nat} {x : α} (hx : level[2 * i]? = some x)
    (hlen : level.length = 2 * i + 1) : children level i = some (x, x) := by
  rw [children, hx, List.getElem?_eq_none (by omega)]
  rfl

/-- The first node of a pair is the node at twice the index. -/
theorem getElem?_of_children {level : List α} {i : Nat} {p : α × α} (h : children level i = some p) :
    level[2 * i]? = some p.1 := by
  obtain ⟨x, hx, rfl⟩ := Option.map_eq_some_iff.mp h
  exact hx

theorem getElem?_levels_succ_of_pair {l : List α} {j i : Nat} {x y : α}
    (hx : (levels hash l j)[2 * i]? = some x) (hy : (levels hash l j)[2 * i + 1]? = some y) :
    (levels hash l (j + 1))[i]? = some (hash x y) := by
  rw [levels_succ, getElem?_up, children_of_pair hx hy]
  rfl

theorem getElem?_levels_succ_of_last {l : List α} {j i : Nat} {x : α}
    (hx : (levels hash l j)[2 * i]? = some x) (hlen : size l.length j = 2 * i + 1) :
    (levels hash l (j + 1))[i]? = some (hash x x) := by
  rw [levels_succ, getElem?_up, children_of_last hx (by rw [length_levels, hlen])]
  rfl

theorem exists_getElem?_levels {l : List α} {j i : Nat} (h : i < size l.length j) :
    ∃ x, (levels hash l j)[i]? = some x :=
  ⟨_, List.getElem?_eq_getElem (by rw [length_levels]; exact h)⟩

/-! ## The root -/

theorem rootLoop_levels {l : List α} (hl : l ≠ []) :
    ∀ fuel j, j ≤ Nat.clog 2 l.length → Nat.clog 2 l.length - j ≤ fuel →
      rootLoop hash fuel (levels hash l j) = (levels hash l (Nat.clog 2 l.length))[0]? := by
  have hn : 0 < l.length := List.length_pos_iff.mpr hl
  -- the level of the root has one node
  obtain ⟨x, hx⟩ : ∃ x, levels hash l (Nat.clog 2 l.length) = [x] := by
    apply List.length_eq_one_iff.mp
    rw [length_levels, size_eq_one_iff hn]
    exact Nat.le_pow_clog Nat.one_lt_two _
  have hroot : ∀ fuel, rootLoop hash fuel (levels hash l (Nat.clog 2 l.length)) =
      (levels hash l (Nat.clog 2 l.length))[0]? := fun fuel => by
    rw [hx]
    cases fuel <;> rfl
  intro fuel
  induction fuel with
  | zero =>
    intro j hj hfuel
    rw [show j = Nat.clog 2 l.length by omega]
    exact hroot 0
  | succ fuel ih =>
    intro j hj hfuel
    by_cases hjd : j = Nat.clog 2 l.length
    · rw [hjd]
      exact hroot _
    · -- below the root a level has at least two nodes
      have h2 : 1 < (levels hash l j).length := by
        rw [length_levels]
        exact one_lt_size ((Nat.lt_clog_iff_pow_lt Nat.one_lt_two).mp (by omega))
      obtain ⟨y, z, rest, hyz⟩ : ∃ y z rest, levels hash l j = y :: z :: rest := by
        match levels hash l j, h2 with
        | y :: z :: rest, _ => exact ⟨y, z, rest, rfl⟩
      rw [hyz, rootLoop, ← hyz, ← levels_succ]
      exact ih (j + 1) (by omega) (by omega)

/-- The root is the node of level `⌈log₂ n⌉`. -/
theorem root_eq {l : List α} (hl : l ≠ []) :
    root hash l = (levels hash l (Nat.clog 2 l.length))[0]? :=
  rootLoop_levels hash hl l.length 0 (Nat.zero_le _) (by
    have := Nat.clog_le_of_le_pow (b := 2) (Nat.lt_two_pow_self (n := l.length)).le
    omega)

theorem root_isSome {l : List α} (hl : l ≠ []) : (root hash l).isSome := by
  have hpos : 0 < size l.length (Nat.clog 2 l.length) :=
    lt_size_iff.mpr (by rw [Nat.zero_mul]; exact List.length_pos_iff.mpr hl)
  obtain ⟨x, hx⟩ := exists_getElem?_levels hash hpos
  rw [root_eq hash hl, hx]
  rfl

/-- A level `t` with `2 ^ t < 2 * n` is at most the level of the root. -/
theorem le_clog_of_two_pow_lt {n t : Nat} (h : 2 ^ t < 2 * n) : t ≤ Nat.clog 2 n := by
  cases t with
  | zero => exact Nat.zero_le _
  | succ t => exact (Nat.lt_clog_iff_pow_lt (by decide)).mpr (by rw [Nat.pow_succ] at h; omega)

/-! ## Paths -/

/-- A node and its sibling give the node above them. -/
theorem getElem?_up_path {level : List α} {i : Nat} {x s : α} (hx : level[i]? = some x)
    (hs : level[siblingIndex level.length i]? = some s) :
    (up hash level)[i / 2]? = some (if i % 2 = 1 then hash s x else hash x s) := by
  rw [getElem?_up]
  unfold siblingIndex at hs
  split_ifs at hs ⊢ with hodd hnext
  · rw [children_of_pair (x := s) (y := x) (by rw [show 2 * (i / 2) = i - 1 by omega]; exact hs)
      (by rw [show 2 * (i / 2) + 1 = i by omega]; exact hx)]
    rfl
  · rw [children_of_pair (x := x) (y := s) (by rw [show 2 * (i / 2) = i by omega]; exact hx)
      (by rw [show 2 * (i / 2) + 1 = i + 1 by omega]; exact hs)]
    rfl
  · rw [hx, Option.some.injEq] at hs
    subst hs
    have hlt := (List.getElem?_eq_some_iff.mp hx).1
    rw [children_of_last (x := x) (by rw [show 2 * (i / 2) = i by omega]; exact hx) (by omega)]
    rfl

/-- Hashing a node with the siblings of its path, level after level, reaches the node
`bs.length` levels above it. -/
theorem pathRoot_levels (l : List α) :
    ∀ (bs : List α) (j i : Nat) (x : α), (levels hash l j)[i]? = some x →
      (∀ t < bs.length, bs[t]? = (levels hash l (j + t))[siblingIndex (size l.length (j + t)) (i / 2 ^ t)]?) →
      (levels hash l (j + bs.length))[i / 2 ^ bs.length]? = some (pathRoot hash x bs i) := by
  intro bs
  induction bs with
  | nil => intro j i x hx _; simpa [pathRoot] using hx
  | cons s bs ih =>
    intro j i x hx hbs
    have hs := hbs 0 (by simp)
    simp only [List.getElem?_cons_zero, Nat.add_zero, Nat.pow_zero, Nat.div_one] at hs
    have hup := getElem?_up_path hash hx (by rw [length_levels]; exact hs.symm)
    rw [← levels_succ] at hup
    rw [pathRoot, List.length_cons, show j + (bs.length + 1) = (j + 1) + bs.length by omega,
      Nat.pow_succ', ← Nat.div_div_eq_div_mul]
    apply ih (j + 1) (i / 2) _ hup
    intro t ht
    rw [Nat.div_div_eq_div_mul, ← Nat.pow_succ', show j + 1 + t = j + (t + 1) by omega]
    exact hbs (t + 1) (by simp; omega)

/-! ## Equal siblings -/

theorem siblingsEqual_iff [DecidableEq α] :
    ∀ level : List α, siblingsEqual level = true ↔
      ∃ i x, level[2 * i]? = some x ∧ level[2 * i + 1]? = some x
  | [] => by simp [siblingsEqual]
  | [x] => by simp [siblingsEqual]
  | x :: y :: rest => by
    rw [siblingsEqual, Bool.or_eq_true, beq_iff_eq, siblingsEqual_iff rest]
    constructor
    · rintro (rfl | ⟨i, z, hz, hz'⟩)
      · exact ⟨0, x, rfl, rfl⟩
      · exact ⟨i + 1, z, by simpa [show 2 * (i + 1) = 2 * i + 2 by omega] using hz,
          by simpa [show 2 * (i + 1) + 1 = 2 * i + 1 + 2 by omega] using hz'⟩
    · rintro ⟨_ | i, z, hz, hz'⟩
      · simp only [List.getElem?_cons_zero, Nat.mul_zero, Nat.zero_add, List.getElem?_cons_succ,
          Option.some.injEq] at hz hz'
        exact Or.inl (hz.trans hz'.symm)
      · exact Or.inr ⟨i, z, by simpa [show 2 * (i + 1) = 2 * i + 2 by omega] using hz,
          by simpa [show 2 * (i + 1) + 1 = 2 * i + 1 + 2 by omega] using hz'⟩

/-- Equal complete siblings are equal siblings. -/
theorem mutated_of_completeMutated [DecidableEq α] {l : List α} (h : CompleteMutated hash l) :
    Mutated hash l := by
  obtain ⟨j, i, x, -, hx, hx'⟩ := h
  exact ⟨j, (siblingsEqual_iff _).mpr ⟨i, x, hx, hx'⟩⟩

section CollisionFree

variable {hash} {l : List α} (hcf : CollisionFree hash l)
include hcf

/-- A complete node equal to an incomplete one at the same level: below them, the pair
that repeats a node is matched by a complete pair of equal nodes. -/
theorem completeMutated_of_eq_incomplete :
    ∀ j a b x, (a + 1) * 2 ^ j ≤ l.length → l.length < (b + 1) * 2 ^ j → b < size l.length j →
      (levels hash l j)[a]? = some x → (levels hash l j)[b]? = some x → CompleteMutated hash l := by
  intro j
  induction j with
  | zero =>
    intro a b x _ hb hbs
    simp only [size] at hbs
    omega
  | succ j ih =>
    intro a b x ha hb hbs hxa hxb
    have hp := Nat.two_pow_pos j
    -- both children of the complete node are there
    obtain ⟨a1, ha1⟩ := exists_getElem?_levels hash (lt_size_iff.mpr (by rw [Nat.pow_succ] at ha; nlinarith))
      (l := l) (j := j) (i := 2 * a)
    obtain ⟨a2, ha2⟩ := exists_getElem?_levels hash (lt_size_iff.mpr (by rw [Nat.pow_succ] at ha; nlinarith))
      (l := l) (j := j) (i := 2 * a + 1)
    have hb0 : 2 * b < size l.length j := by
      have := lt_size_iff.mp hbs
      exact lt_size_iff.mpr (by rw [Nat.pow_succ] at this; nlinarith)
    obtain ⟨b1, hb1⟩ := exists_getElem?_levels hash hb0
    have hca := children_of_pair ha1 ha2
    rw [levels_succ, getElem?_up, hca, Option.map_some, Option.some.injEq] at hxa
    by_cases hlast : 2 * b + 1 < size l.length j
    · -- the incomplete node has two children, the second incomplete
      obtain ⟨b2, hb2⟩ := exists_getElem?_levels hash hlast
      rw [levels_succ, getElem?_up, children_of_pair hb1 hb2, Option.map_some, Option.some.injEq] at hxb
      have heq := hcf j a b (a1, a2) (b1, b2) hca (children_of_pair hb1 hb2) (hxa.trans hxb.symm)
      simp only [Prod.mk.injEq] at heq
      rw [Nat.pow_succ] at ha hb
      exact ih (2 * a + 1) (2 * b + 1) a2 (by nlinarith) (by nlinarith) hlast ha2 (heq.2 ▸ hb2)
    · -- the incomplete node is the last of an odd level, hashed with itself
      have hsize : size l.length j = 2 * b + 1 := by omega
      have hcb := children_of_last hb1 (by rw [length_levels, hsize])
      rw [levels_succ, getElem?_up, hcb, Option.map_some, Option.some.injEq] at hxb
      have heq := hcf j a b (a1, a2) (b1, b1) hca hcb (hxa.trans hxb.symm)
      simp only [Prod.mk.injEq] at heq
      obtain ⟨h1, h2⟩ := heq
      exact ⟨j, a, a1, by rw [Nat.pow_succ] at ha ⊢; linarith, ha1, by rw [ha2, h2, ← h1]⟩

/-- Under no collision, equal siblings anywhere give equal complete siblings. -/
theorem completeMutated_of_mutated [DecidableEq α] (h : Mutated hash l) : CompleteMutated hash l := by
  obtain ⟨j, hj⟩ := h
  obtain ⟨i, x, hx, hx'⟩ := (siblingsEqual_iff _).mp hj
  have hp := Nat.two_pow_pos j
  have hi1 : 2 * i + 1 < size l.length j := by
    have := (List.getElem?_eq_some_iff.mp hx').1
    rwa [length_levels] at this
  by_cases hc : (i + 1) * 2 ^ (j + 1) ≤ l.length
  · exact ⟨j, i, x, hc, hx, hx'⟩
  · -- the right node is incomplete and the left one complete
    have hr := lt_size_iff.mp hi1
    rw [Nat.pow_succ] at hc
    exact completeMutated_of_eq_incomplete hcf j (2 * i) (2 * i + 1) x (by nlinarith) (by nlinarith) hi1 hx hx'

/-- Over distinct leaves, the nodes of one level are distinct: equal nodes have equal
pairs below them, hence equal first children, down to equal leaves. -/
theorem getElem?_levels_inj (hnd : l.Nodup) :
    ∀ (j a b : Nat) (x : α), (levels hash l j)[a]? = some x → (levels hash l j)[b]? = some x → a = b := by
  intro j
  induction j with
  | zero =>
    intro a b x ha hb
    obtain ⟨hal, hax⟩ := List.getElem?_eq_some_iff.mp ha
    obtain ⟨hbl, hbx⟩ := List.getElem?_eq_some_iff.mp hb
    exact hnd.getElem_inj_iff.mp (hax.trans hbx.symm)
  | succ j ih =>
    intro a b x ha hb
    rw [levels_succ, getElem?_up] at ha hb
    obtain ⟨p, hpa, hxa⟩ := Option.map_eq_some_iff.mp ha
    obtain ⟨p', hpb, hxb⟩ := Option.map_eq_some_iff.mp hb
    have hpp : p = p' := hcf j a b p p' hpa hpb (hxa.trans hxb.symm)
    subst hpp
    have h2 := ih (2 * a) (2 * b) p.1 (getElem?_of_children hpa) (getElem?_of_children hpb)
    omega

end CollisionFree

/-- A tree over one leaf has one node per level. -/
theorem levels_singleton (x : α) : ∀ j, ∃ y, levels hash [x] j = [y]
  | 0 => ⟨x, rfl⟩
  | j + 1 => by
    obtain ⟨y, hy⟩ := levels_singleton x j
    exact ⟨hash y y, by rw [levels_succ, hy]; rfl⟩

/-- A tree over one leaf pairs one node per level, so nothing can collide. -/
theorem collisionFree_singleton (x : α) : CollisionFree hash [x] := by
  intro j i i' p p' hp hp' _
  obtain ⟨y, hy⟩ := levels_singleton hash x j
  have hi := getElem?_of_children hp
  have hi' := getElem?_of_children hp'
  rw [hy] at hi hi'
  -- both pairs start at the one node, so both are its pair with itself
  obtain ⟨hlt, -⟩ := List.getElem?_eq_some_iff.mp hi
  obtain ⟨hlt', -⟩ := List.getElem?_eq_some_iff.mp hi'
  have hi0 : i = 0 := by simp at hlt; omega
  have hi0' : i' = 0 := by simp at hlt'; omega
  subst hi0 hi0'
  exact Option.some.inj (hp.symm.trans hp')

theorem levels_add (l : List α) (j : Nat) : ∀ k, levels hash l (j + k) = levels hash (levels hash l j) k
  | 0 => rfl
  | k + 1 => by rw [← Nat.add_assoc, levels_succ, levels_add l j k, levels_succ]

/-- Distinct nodes in the level above leave no two different pairs of a level hashing to
one node. -/
theorem children_inj_of_nodup {level : List α} {i i' : Nat} {p p' : α × α}
    (hnd : (up hash level).Nodup) (hp : children level i = some p) (hp' : children level i' = some p')
    (heq : hash p.1 p.2 = hash p'.1 p'.2) : p = p' := by
  have hi : (up hash level)[i]? = some (hash p.1 p.2) := by rw [getElem?_up, hp]; rfl
  have hi' : (up hash level)[i']? = some (hash p'.1 p'.2) := by rw [getElem?_up, hp']; rfl
  have hlt : i < (up hash level).length := (List.getElem?_eq_some_iff.mp hi).1
  have hii : i = i' := (List.getElem?_inj hlt hnd).mp (by rw [hi, hi', heq])
  subst hii
  exact Option.some.inj (hp.symm.trans hp')

/-- A tree is collision free when each level up to the root holds distinct nodes: above
the root every level is one node, which pairs only with itself. This makes
`CollisionFree` a finite check on a concrete tree. -/
theorem collisionFree_of_nodup (l : List α) (m : Nat) (x : α) (htop : levels hash l m = [x])
    (hnd : ∀ j < m, (levels hash l (j + 1)).Nodup) : CollisionFree hash l := by
  intro j i i' p p' hp hp' heq
  by_cases hj : j < m
  · exact children_inj_of_nodup hash (hnd j hj) hp hp' heq
  · obtain ⟨k, rfl⟩ := Nat.exists_eq_add_of_le (Nat.le_of_not_lt hj)
    rw [levels_add, htop] at hp hp'
    exact collisionFree_singleton hash x k i i' p p' hp hp' heq

/-! ## Counting leaves in binary

A streaming computation keeps one complete node for each set bit of the number of leaves
read. Adding a block of `2 ^ a` leaves to a count that is a multiple of `2 ^ a` carries
from bit `a` up to the lowest set bit `t` of the sum: the bits between were set and are
cleared, the bits above do not change. -/

theorem testBit_eq_false_of_two_pow_dvd {x k j : Nat} (h : 2 ^ k ∣ x) (hj : j < k) :
    x.testBit j = false := by
  obtain ⟨m, rfl⟩ := h
  rw [Nat.mul_comm, Nat.testBit_mul_two_pow]
  simp [Nat.not_le.mpr hj]

theorem two_pow_dvd_of_testBit_eq_false {x t : Nat} (h : ∀ j < t, x.testBit j = false) : 2 ^ t ∣ x := by
  induction t with
  | zero => simp
  | succ t ih =>
    obtain ⟨m, hm⟩ := ih fun j hj => h j (by omega)
    have hbit := h t (by omega)
    rw [Nat.testBit_eq_decide_div_mod_eq, hm, Nat.mul_div_cancel_left _ (Nat.two_pow_pos t)] at hbit
    have heven : 2 ∣ m := Nat.dvd_of_mod_eq_zero (by simpa using hbit)
    exact ⟨m / 2, by rw [hm, Nat.pow_succ, Nat.mul_assoc, Nat.mul_div_cancel' heven]⟩

theorem not_two_pow_dvd_of_testBit {x t k : Nat} (hbit : x.testBit t = true) (hk : t < k) :
    ¬ 2 ^ k ∣ x := fun h => by
  rw [testBit_eq_false_of_two_pow_dvd h hk] at hbit
  exact Bool.false_ne_true hbit

theorem exists_lowest_testBit {x : Nat} (hx : x ≠ 0) :
    ∃ t, x.testBit t = true ∧ ∀ j < t, x.testBit j = false := by
  have h := Nat.exists_testBit_of_ne_zero hx
  refine ⟨Nat.find h, Nat.find_spec h, fun j hj => ?_⟩
  simpa using Nat.find_min h hj

/-- Below the lowest set bit `t` of `x`, the quotient of `x` by `2 ^ j` is even and not
zero. -/
theorem div_two_pow_even_of_lt {x t j : Nat} (hlow : ∀ j < t, x.testBit j = false)
    (hbit : x.testBit t = true) (hj : j < t) : x / 2 ^ j % 2 = 0 ∧ 2 ≤ x / 2 ^ j := by
  have heven := hlow j hj
  rw [Nat.testBit_eq_decide_div_mod_eq, decide_eq_false_iff_not] at heven
  have hpos : 1 ≤ x / 2 ^ j := (Nat.le_div_iff_mul_le (Nat.two_pow_pos j)).mpr (by
    rw [Nat.one_mul]
    exact (Nat.pow_le_pow_right (by decide) hj.le).trans (Nat.ge_two_pow_of_testBit hbit))
  omega

/-- Adding `2 ^ a` to a multiple of `2 ^ a` adds one to its quotient by `2 ^ j` exactly
when the sum is a multiple of `2 ^ j`. -/
theorem add_two_pow_div {y a j : Nat} (hy : 2 ^ a ∣ y) (hj : a ≤ j) :
    (y + 2 ^ a) / 2 ^ j = y / 2 ^ j + if 2 ^ j ∣ y + 2 ^ a then 1 else 0 := by
  obtain ⟨u, rfl⟩ := hy
  have hpow : 2 ^ j = 2 ^ a * 2 ^ (j - a) := by rw [← Nat.pow_add, Nat.add_sub_cancel' hj]
  have ha := Nat.two_pow_pos a
  rw [← Nat.mul_succ, hpow, Nat.mul_div_mul_left _ _ ha, Nat.mul_div_mul_left _ _ ha]
  simp only [Nat.mul_dvd_mul_iff_left ha]
  exact Nat.succ_div

/-- The complete pairs a count completes: the pair `i` of level `j` ends at `x` exactly
below the lowest set bit `t` of `x`, at the pair just before `x`. -/
theorem succ_mul_two_pow_eq_iff {x t i j : Nat} (hlow : ∀ j < t, x.testBit j = false)
    (hbit : x.testBit t = true) : (i + 1) * 2 ^ (j + 1) = x ↔ j < t ∧ x / 2 ^ j = 2 * i + 2 := by
  constructor
  · intro h
    have hjt : j < t := by
      by_contra hc
      exact @not_two_pow_dvd_of_testBit x t (j + 1) hbit (by omega) ⟨i + 1, by rw [← h, Nat.mul_comm]⟩
    refine ⟨hjt, ?_⟩
    rw [← h, Nat.pow_succ, Nat.mul_comm, Nat.mul_assoc, show 2 * (i + 1) = 2 * i + 2 by omega]
    exact Nat.mul_div_cancel_left _ (Nat.two_pow_pos j)
  · rintro ⟨hjt, hq⟩
    obtain ⟨m, hm⟩ := @two_pow_dvd_of_testBit_eq_false x (j + 1) fun j' hj' => hlow j' (by omega)
    rw [hm, Nat.pow_succ, Nat.mul_assoc, Nat.mul_div_cancel_left _ (Nat.two_pow_pos j)] at hq
    rw [hm, show m = i + 1 by omega, Nat.mul_comm]

section Carry

variable {y a t : Nat} (hy : 2 ^ a ∣ y) (hlow : ∀ j < t, (y + 2 ^ a).testBit j = false)
  (hbit : (y + 2 ^ a).testBit t = true)
include hy

include hlow in
theorem add_two_pow_div_of_le {j : Nat} (hj : a ≤ j) (hjt : j ≤ t) :
    (y + 2 ^ a) / 2 ^ j = y / 2 ^ j + 1 := by
  rw [add_two_pow_div hy hj, if_pos (two_pow_dvd_of_testBit_eq_false fun i hi => hlow i (by omega))]

include hbit in
theorem add_two_pow_div_of_lt {j : Nat} (hj : t < j) :
    (y + 2 ^ a) / 2 ^ j = y / 2 ^ j := by
  have hat : a ≤ t := by
    by_contra hta
    rw [testBit_eq_false_of_two_pow_dvd (Nat.dvd_add hy (Nat.dvd_refl _)) (by omega)] at hbit
    exact Bool.false_ne_true hbit
  rw [add_two_pow_div hy (by omega), if_neg (not_two_pow_dvd_of_testBit hbit hj), Nat.add_zero]

include hbit in
theorem testBit_add_two_pow_of_lt {j : Nat} (hj : t < j) :
    (y + 2 ^ a).testBit j = y.testBit j := by
  rw [Nat.testBit_eq_decide_div_mod_eq, Nat.testBit_eq_decide_div_mod_eq, add_two_pow_div_of_lt hy hbit hj]

include hlow hbit in
/-- Below the carry, from bit `a` on, the bits of `y` were set. -/
theorem testBit_of_lt_carry {j : Nat} (hj : a ≤ j) (hjt : j < t) : y.testBit j = true := by
  have hq := add_two_pow_div_of_le hy hlow hj hjt.le
  obtain ⟨heven, htwo⟩ := div_two_pow_even_of_lt hlow hbit hjt
  rw [Nat.testBit_eq_decide_div_mod_eq, decide_eq_true_iff]
  omega

include hlow hbit in
theorem testBit_carry (hat : a ≤ t) : y.testBit t = false := by
  have hq := add_two_pow_div_of_le hy hlow hat le_rfl
  rw [Nat.testBit_eq_decide_div_mod_eq] at hbit ⊢
  simp only [decide_eq_false_iff_not, decide_eq_true_eq] at hbit ⊢
  omega

end Carry

end MerkleTree

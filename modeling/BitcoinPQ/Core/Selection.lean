import Mathlib.Algebra.BigOperators.Group.List.Basic
import Mathlib.Data.List.GetD
import Mathlib.Data.List.Nodup

/-!
# Selections from a list: masks and a shuffle

A subset of a list is a mask of Booleans beside it. Turning on one flag that was off
adds the weight of one element to the weight of the subset, which is what an
incremental subset-sum search keeps track of, and every masked subset is a sublist of
the list.

`random_shuffle` is the libstdc++ algorithm with its random source as an argument:
position `i` trades places with a position drawn below `i + 1`. Whatever is drawn, the
result is a permutation of the input.
-/

namespace Selection

variable {α : Type}

/-- The elements of `l` that `mask` marks. -/
def select : List α → List Bool → List α
  | a :: l, b :: mask => if b then a :: select l mask else select l mask
  | _, _ => []

@[simp] theorem select_nil (mask : List Bool) : select ([] : List α) mask = [] := rfl

@[simp] theorem select_cons_cons (a : α) (l : List α) (b : Bool) (mask : List Bool) :
    select (a :: l) (b :: mask) = if b then a :: select l mask else select l mask := rfl

theorem select_sublist : ∀ (l : List α) (mask : List Bool), (select l mask).Sublist l
  | [], _ => List.nil_sublist _
  | _ :: _, [] => List.nil_sublist _
  | a :: l, b :: mask => by
    cases b with
    | false => exact (select_sublist l mask).cons a
    | true => exact (select_sublist l mask).cons_cons a

theorem select_replicate_true : ∀ (l : List α), select l (List.replicate l.length true) = l
  | [] => rfl
  | a :: l => by
    rw [List.length_cons, List.replicate_succ, select_cons_cons, if_pos rfl,
      select_replicate_true l]

theorem select_replicate_false : ∀ (l : List α) (n : Nat), select l (List.replicate n false) = []
  | [], _ => rfl
  | _ :: _, 0 => rfl
  | a :: l, n + 1 => by
    rw [List.replicate_succ, select_cons_cons, if_neg Bool.false_ne_true,
      select_replicate_false l n]

section Weight

variable {M : Type} [AddCommMonoid M] (w : α → M)

/-- The weight of the elements that `mask` marks. -/
def maskSum (l : List α) (mask : List Bool) : M := ((select l mask).map w).sum

theorem maskSum_cons_cons (a : α) (l : List α) (b : Bool) (mask : List Bool) :
    maskSum w (a :: l) (b :: mask) = (if b then w a else 0) + maskSum w l mask := by
  cases b <;> simp [maskSum]

theorem maskSum_replicate_false (l : List α) (n : Nat) :
    maskSum w l (List.replicate n false) = 0 := by
  rw [maskSum, select_replicate_false, List.map_nil, List.sum_nil]

theorem maskSum_replicate_true (l : List α) :
    maskSum w l (List.replicate l.length true) = (l.map w).sum := by
  rw [maskSum, select_replicate_true]

/-- Turning on the flag of element `i`, off until then, adds its weight. -/
theorem maskSum_set_true : ∀ (l : List α) (mask : List Bool) (i : Nat) (hi : i < l.length),
    mask.length = l.length → mask.getD i false = false →
      maskSum w l (mask.set i true) = maskSum w l mask + w l[i]
  | [], _, _, hi, _, _ => absurd hi (Nat.not_lt_zero _)
  | _ :: _, [], _, _, hlen, _ => by simp at hlen
  | a :: l, b :: mask, 0, _, _, hoff => by
    have hb : b = false := hoff
    subst hb
    rw [List.set_cons_zero, maskSum_cons_cons, maskSum_cons_cons, if_pos rfl,
      if_neg Bool.false_ne_true, List.getElem_cons_zero, zero_add, add_comm]
  | a :: l, b :: mask, i + 1, hi, hlen, hoff => by
    have ih := maskSum_set_true l mask i (Nat.lt_of_succ_lt_succ hi)
      (Nat.succ.inj hlen) hoff
    rw [List.set_cons_succ, maskSum_cons_cons, maskSum_cons_cons, ih, List.getElem_cons_succ,
      add_assoc]

end Weight

theorem getD_set_ne {mask : List Bool} {i j : Nat} (hij : i ≠ j) (b : Bool) :
    (mask.set i b).getD j false = mask.getD j false := by
  rw [List.getD_eq_getElem?_getD, List.getElem?_set_ne hij, ← List.getD_eq_getElem?_getD]

theorem getD_replicate_false (n j : Nat) : (List.replicate n false).getD j false = false := by
  rw [List.getD_eq_getElem?_getD, List.getElem?_replicate]
  split <;> rfl

/-- Turning off a flag that is off leaves the mask as it was. -/
theorem set_false_of_getD_false {mask : List Bool} {i : Nat} (hoff : mask.getD i false = false) :
    mask.set i false = mask := by
  rcases Nat.lt_or_ge i mask.length with hi | hi
  · have hmi : mask[i] = false := by rwa [List.getD_eq_getElem _ _ hi] at hoff
    rw [← hmi, List.set_getElem_self]
  · exact List.set_eq_of_length_le hi

/-- Positions `i` and `j` trade places; out of range, nothing moves. -/
def swap (v : List α) (i j : Nat) : List α :=
  match v[i]?, v[j]? with
  | some a, some b => (v.set i b).set j a
  | _, _ => v

theorem swap_perm (v : List α) (i j : Nat) : (swap v i j).Perm v := by
  unfold swap
  split
  · next a b hi hj =>
    obtain ⟨hi', rfl⟩ := List.getElem?_eq_some_iff.mp hi
    obtain ⟨hj', rfl⟩ := List.getElem?_eq_some_iff.mp hj
    exact List.set_set_perm hi' hj'
  · exact List.Perm.refl v

/-- One position of `random_shuffle`: the element at `i` trades places with the one at
the drawn position, a draw of `rand (i + 1)` taken below `i + 1`. -/
def shuffleStep (rand : Nat → Nat) (v : List α) (i : Nat) : List α :=
  let j := rand (i + 1) % (i + 1)
  if i ≠ j then swap v i j else v

/-- libstdc++'s three-argument `std::random_shuffle`: positions `1, 2, …` in turn each
trade places with a position drawn below them or themselves. -/
def random_shuffle (rand : Nat → Nat) (v : List α) : List α :=
  (List.range' 1 (v.length - 1)).foldl (shuffleStep rand) v

theorem shuffleStep_perm (rand : Nat → Nat) (v : List α) (i : Nat) :
    (shuffleStep rand v i).Perm v := by
  unfold shuffleStep
  dsimp only
  split
  · exact swap_perm v i _
  · exact List.Perm.refl v

theorem foldl_shuffleStep_perm (rand : Nat → Nat) :
    ∀ (positions : List Nat) (v : List α), (positions.foldl (shuffleStep rand) v).Perm v
  | [], v => List.Perm.refl v
  | i :: positions, v => by
    rw [List.foldl_cons]
    exact (foldl_shuffleStep_perm rand positions _).trans (shuffleStep_perm rand v i)

/-- Whatever is drawn, the shuffle only reorders. -/
theorem random_shuffle_perm (rand : Nat → Nat) (v : List α) : (random_shuffle rand v).Perm v :=
  foldl_shuffleStep_perm rand _ v

end Selection

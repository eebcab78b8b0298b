import Mathlib

/-!
# Signed 64-bit arithmetic in range

An `int64_t` addition or subtraction wraps modulo `2^64`; where the exact result lies in
`[-2^63, 2^63)` it is the exact one. Values in `[0, bound]`, for a bound below `2^62`,
therefore add and subtract without wrapping: a running total kept in such a range by a
check after each step is always the exact total, and the loop that keeps it ends exactly
where every value and the exact total lie in the range.
-/

namespace Int64Range

theorem toInt_add_of_bounds {a b : Int64} (hlo : -2 ^ 63 ≤ a.toInt + b.toInt)
    (hhi : a.toInt + b.toInt < 2 ^ 63) : (a + b).toInt = a.toInt + b.toInt := by
  rw [Int64.toInt_add]
  exact Int.bmod_eq_of_le (by omega) (by omega)

theorem toInt_sub_of_bounds {a b : Int64} (hlo : -2 ^ 63 ≤ a.toInt - b.toInt)
    (hhi : a.toInt - b.toInt < 2 ^ 63) : (a - b).toInt = a.toInt - b.toInt := by
  rw [Int64.toInt_sub]
  exact Int.bmod_eq_of_le (by omega) (by omega)

/-- Two values in `[0, bound]` add without wrapping. -/
theorem toInt_add_of_nonneg {a b : Int64} {bound : Int} (hbound : bound < 2 ^ 62)
    (ha₀ : 0 ≤ a.toInt) (ha : a.toInt ≤ bound) (hb₀ : 0 ≤ b.toInt) (hb : b.toInt ≤ bound) :
    (a + b).toInt = a.toInt + b.toInt :=
  toInt_add_of_bounds (by omega) (by omega)

/-- Two values in `[0, bound]` subtract without wrapping. -/
theorem toInt_sub_of_nonneg {a b : Int64} {bound : Int} (hbound : bound < 2 ^ 62)
    (ha₀ : 0 ≤ a.toInt) (ha : a.toInt ≤ bound) (hb₀ : 0 ≤ b.toInt) (hb : b.toInt ≤ bound) :
    (a - b).toInt = a.toInt - b.toInt :=
  toInt_sub_of_bounds (by omega) (by omega)

/-- The loop `total += x; if (x ∉ [0, bound] || total ∉ [0, bound]) fail;` over `xs`
from `total`: the last total, or `none` where a check fails. -/
def checkedTotal (bound : Int) : Int64 → List Int64 → Option Int64
  | total, [] => some total
  | total, x :: xs =>
    if 0 ≤ x.toInt ∧ x.toInt ≤ bound ∧ 0 ≤ (total + x).toInt ∧ (total + x).toInt ≤ bound then
      checkedTotal bound (total + x) xs
    else none

@[simp] theorem checkedTotal_nil (bound : Int) (total : Int64) :
    checkedTotal bound total [] = some total := rfl

theorem checkedTotal_cons (bound : Int) (total x : Int64) (xs : List Int64) :
    checkedTotal bound total (x :: xs) =
      if 0 ≤ x.toInt ∧ x.toInt ≤ bound ∧ 0 ≤ (total + x).toInt ∧ (total + x).toInt ≤ bound then
        checkedTotal bound (total + x) xs
      else none := rfl

theorem sum_toInt_nonneg {xs : List Int64} {bound : Int}
    (hall : ∀ x ∈ xs, 0 ≤ x.toInt ∧ x.toInt ≤ bound) : 0 ≤ (xs.map Int64.toInt).sum :=
  List.sum_nonneg fun y hy => by
    obtain ⟨x, hx, rfl⟩ := List.mem_map.mp hy
    exact (hall x hx).1

/-- From a total in `[0, bound]`, for a bound below `2^62`, the checked loop ends exactly
where every value and the exact total lie in the interval, with the exact total. -/
theorem checkedTotal_eq_some_iff {bound : Int} (hbound : bound < 2 ^ 62) {total : Int64}
    (h₀ : 0 ≤ total.toInt) (h₁ : total.toInt ≤ bound) (xs : List Int64) (v : Int64) :
    checkedTotal bound total xs = some v ↔
      (∀ x ∈ xs, 0 ≤ x.toInt ∧ x.toInt ≤ bound) ∧ total.toInt + (xs.map Int64.toInt).sum ≤ bound ∧
        v.toInt = total.toInt + (xs.map Int64.toInt).sum := by
  induction xs generalizing total with
  | nil =>
    rw [checkedTotal_nil, Option.some_inj, ← Int64.toInt_inj, List.map_nil, List.sum_nil, add_zero]
    exact ⟨fun h => ⟨by simp, h₁, h.symm⟩, fun h => h.2.2.symm⟩
  | cons x xs ih =>
    rw [checkedTotal_cons, List.forall_mem_cons, List.map_cons, List.sum_cons]
    by_cases hx : 0 ≤ x.toInt ∧ x.toInt ≤ bound
    · have hsum := toInt_add_of_nonneg hbound h₀ h₁ hx.1 hx.2
      by_cases htot : (total + x).toInt ≤ bound
      · have hstep : 0 ≤ (total + x).toInt := by omega
        rw [if_pos ⟨hx.1, hx.2, hstep, htot⟩, ih hstep htot, hsum, ← add_assoc]
        simp only [hx, true_and]
      · rw [if_neg fun h => htot h.2.2.2]
        refine ⟨fun h => (by cases h), fun ⟨⟨_, hall⟩, hle, _⟩ => ?_⟩
        have hrest := sum_toInt_nonneg hall
        omega
    · rw [if_neg fun h => hx ⟨h.1, h.2.1⟩]
      exact ⟨fun h => (by cases h), fun ⟨⟨h, _⟩, _⟩ => (hx h).elim⟩

/-- From a total in `[0, bound]`, the checked loop passes exactly where every value and the
exact total lie in the interval. -/
theorem isSome_checkedTotal_iff {bound : Int} (hbound : bound < 2 ^ 62) {total : Int64}
    (h₀ : 0 ≤ total.toInt) (h₁ : total.toInt ≤ bound) (xs : List Int64) :
    (checkedTotal bound total xs).isSome ↔
      (∀ x ∈ xs, 0 ≤ x.toInt ∧ x.toInt ≤ bound) ∧ total.toInt + (xs.map Int64.toInt).sum ≤ bound := by
  rw [Option.isSome_iff_exists]
  simp only [checkedTotal_eq_some_iff hbound h₀ h₁]
  constructor
  · rintro ⟨_, hall, hle, _⟩
    exact ⟨hall, hle⟩
  · rintro ⟨hall, hle⟩
    have hrest := sum_toInt_nonneg hall
    exact ⟨Int64.ofInt (total.toInt + (xs.map Int64.toInt).sum), hall, hle,
      Int64.toInt_ofInt_of_le (by omega) (by omega)⟩

end Int64Range

import Mathlib.Data.Nat.Digits.Lemmas
import Mathlib.Data.Nat.Size
import Mathlib.Data.List.GetD
import Mathlib.Data.Nat.Bitwise
import BitcoinPQ.Core.Digits

/-!
# base_uint

`arith_uint256.h`: `base_uint<BITS>` is an unsigned integer of `WIDTH = BITS / 32` words
`pn[0]`, ..., `pn[WIDTH - 1]`, least significant first; `arith_uint256` is
`base_uint<256>`. Each operator is its loop over the words, on `uint32_t` words with the
carries and products of the loops in `uint64_t`. Those 64-bit intermediates never exceed
`2^64 - 1` (a product of two words plus two words at most), so they are natural numbers
here, and the word a loop stores is its low 32 bits.

The value of a `base_uint` is the number its words are the base-`2^32` digits of
(`toNat`). Against it: `+=`, `-=`, `*=` and `<<=` compute modulo `2^(32 WIDTH)`, `>>=`
rounds down, `bits()` is the bit length, `CompareTo` compares the values, and `/=`
rounds the quotient down and throws on a zero divisor.
-/

namespace BitcoinPQ

/-- `base_uint<BITS>`: the words `pn`, `WIDTH` of them. -/
structure base_uint (WIDTH : ℕ) where
  pn : List UInt32
  length_pn : pn.length = WIDTH

/-- `arith_uint256`. -/
abbrev arith_uint256 := base_uint 8

namespace base_uint

variable {WIDTH : ℕ}

/-- The number that words are the base-`2^32` digits of, least significant first. -/
def val (l : List UInt32) : ℕ :=
  Nat.ofDigits (2 ^ 32) (l.map UInt32.toNat)

/-- The value of a `base_uint`. -/
def toNat (a : base_uint WIDTH) : ℕ :=
  val a.pn

/-- `base_uint()`: every word zero. -/
def zero : base_uint WIDTH :=
  ⟨List.replicate WIDTH 0, List.length_replicate⟩

/-- `base_uint(uint64_t b)`: the low and high halves of `b` in the first two words. -/
def ofUInt64 (b : UInt64) : base_uint WIDTH :=
  ⟨([b.toUInt32, (b >>> 32).toUInt32] ++ List.replicate (WIDTH - 2) 0).take WIDTH, by
    rw [List.length_take, List.length_append, List.length_replicate]
    simp only [List.length_cons, List.length_nil]
    omega⟩

/-- `GetLow64()`: the first two words. -/
def GetLow64 (a : base_uint WIDTH) : UInt64 :=
  (a.pn.getD 0 0).toUInt64 ||| ((a.pn.getD 1 0).toUInt64 <<< 32)

/-- `EqualTo(uint64_t b)`: the words from `2` on are zero and the first two are the
halves of `b`. -/
def EqualTo (a : base_uint WIDTH) (b : UInt64) : Bool :=
  (a.pn.drop 2).all (· == 0) && (a.pn.getD 1 0).toUInt64 == b >>> 32 &&
    (a.pn.getD 0 0).toUInt64 == (b &&& 0xffffffff)

/-- `operator~`: every word complemented. -/
def complement (a : base_uint WIDTH) : base_uint WIDTH :=
  ⟨a.pn.map (~~~ ·), by rw [List.length_map, a.length_pn]⟩

/-- The loop of `operator++`: `while (i < WIDTH && ++pn[i] == 0) i++`. -/
def incLoop : List UInt32 → List UInt32
  | [] => []
  | x :: xs => if x + 1 = 0 then (x + 1) :: incLoop xs else (x + 1) :: xs

theorem length_incLoop (l : List UInt32) : (incLoop l).length = l.length := by
  induction l with
  | nil => rfl
  | cons x xs ih =>
    rw [incLoop]
    split
    · rw [List.length_cons, List.length_cons, ih]
    · rfl

/-- `operator++`. -/
def inc (a : base_uint WIDTH) : base_uint WIDTH :=
  ⟨incLoop a.pn, by rw [length_incLoop, a.length_pn]⟩

/-- `operator-()`: the complement, incremented. -/
def neg (a : base_uint WIDTH) : base_uint WIDTH :=
  a.complement.inc

/-- The loop of `operator+=`: `n = carry + pn[i] + b.pn[i]`, its low word stored and its
high word carried. -/
def addLoop : ℕ → List UInt32 → List UInt32 → List UInt32
  | carry, x :: xs, y :: ys =>
    let n := carry + x.toNat + y.toNat
    UInt32.ofNat n :: addLoop (n / 2 ^ 32) xs ys
  | _, _, _ => []

theorem length_addLoop (carry : ℕ) (xs ys : List UInt32) :
    (addLoop carry xs ys).length = min xs.length ys.length := by
  induction xs generalizing carry ys with
  | nil => rfl
  | cons x xs ih =>
    cases ys with
    | nil => rfl
    | cons y ys => rw [addLoop, List.length_cons, ih, List.length_cons, List.length_cons, Nat.succ_min_succ]

/-- `operator+=`. -/
def add (a b : base_uint WIDTH) : base_uint WIDTH :=
  ⟨addLoop 0 a.pn b.pn, by rw [length_addLoop, a.length_pn, b.length_pn, Nat.min_self]⟩

/-- `operator-=`: `*this += -b`. -/
def sub (a b : base_uint WIDTH) : base_uint WIDTH :=
  a.add b.neg

/-- The loop of `operator*=(uint32_t b32)`: `n = carry + b32 * pn[i]`. -/
def mul32Loop (b32 : UInt32) : ℕ → List UInt32 → List UInt32
  | _, [] => []
  | carry, x :: xs =>
    let n := carry + b32.toNat * x.toNat
    UInt32.ofNat n :: mul32Loop b32 (n / 2 ^ 32) xs

theorem length_mul32Loop (b32 : UInt32) (carry : ℕ) (xs : List UInt32) :
    (mul32Loop b32 carry xs).length = xs.length := by
  induction xs generalizing carry with
  | nil => rfl
  | cons x xs ih => rw [mul32Loop, List.length_cons, ih, List.length_cons]

/-- `operator*=(uint32_t b32)`. -/
def mul32 (a : base_uint WIDTH) (b32 : UInt32) : base_uint WIDTH :=
  ⟨mul32Loop b32 0 a.pn, by rw [length_mul32Loop, a.length_pn]⟩

/-- The inner loop of `operator*=(const base_uint& b)` for the word `a.pn[j]`:
`n = carry + pn[i + j] + a.pn[j] * b.pn[i]` over the words of `this` from `j` on. -/
def mulAddLoop (aj : UInt32) : ℕ → List UInt32 → List UInt32 → List UInt32
  | carry, p :: ps, y :: ys =>
    let n := carry + p.toNat + aj.toNat * y.toNat
    UInt32.ofNat n :: mulAddLoop aj (n / 2 ^ 32) ps ys
  | _, _, _ => []

theorem length_mulAddLoop (aj : UInt32) (carry : ℕ) (ps ys : List UInt32) :
    (mulAddLoop aj carry ps ys).length = min ps.length ys.length := by
  induction ps generalizing carry ys with
  | nil => rfl
  | cons p ps ih =>
    cases ys with
    | nil => rfl
    | cons y ys =>
      rw [mulAddLoop, List.length_cons, ih, List.length_cons, List.length_cons, Nat.succ_min_succ]

/-- The outer loop of `operator*=`: row `j` adds `a.pn[j] * b` into the words from `j`
on, `i + j < WIDTH`. -/
def mulLoop (b : List UInt32) : ℕ → List UInt32 → List UInt32 → List UInt32
  | _, [], pn => pn
  | j, aj :: as, pn => mulLoop b (j + 1) as (pn.take j ++ mulAddLoop aj 0 (pn.drop j) b)

theorem length_mulLoop {b : List UInt32} (j : ℕ) (as pn : List UInt32) (hb : pn.length ≤ b.length + j) :
    (mulLoop b j as pn).length = pn.length := by
  induction as generalizing j pn with
  | nil => rfl
  | cons aj as ih =>
    have hrow : (pn.take j ++ mulAddLoop aj 0 (pn.drop j) b).length = pn.length := by
      rw [List.length_append, List.length_take, length_mulAddLoop, List.length_drop]
      omega
    rw [mulLoop, ih (j + 1) _ (by rw [hrow]; omega), hrow]

/-- `operator*=(const base_uint& b)`: from zero, the rows of `a`'s words. -/
def mul (a b : base_uint WIDTH) : base_uint WIDTH :=
  ⟨mulLoop b.pn 0 a.pn (List.replicate WIDTH 0), by
    rw [length_mulLoop 0 _ _ (by rw [List.length_replicate, b.length_pn]; omega), List.length_replicate]⟩

/-- The loop of `operator<<=`: word `i` of the old value, shifted by `s` bits, is or-ed
into word `i + k`, and its high bits into word `i + k + 1`. -/
def shiftLeftLoop (k s : ℕ) : ℕ → List UInt32 → List UInt32 → List UInt32
  | _, [], pn => pn
  | i, x :: xs, pn =>
    let pn := if i + k + 1 < pn.length ∧ s ≠ 0 then
      pn.modify (i + k + 1) (· ||| (x >>> UInt32.ofNat (32 - s))) else pn
    let pn := if i + k < pn.length then pn.modify (i + k) (· ||| (x <<< UInt32.ofNat s)) else pn
    shiftLeftLoop k s (i + 1) xs pn

theorem length_shiftLeftLoop (k s i : ℕ) (xs pn : List UInt32) :
    (shiftLeftLoop k s i xs pn).length = pn.length := by
  induction xs generalizing i pn with
  | nil => rfl
  | cons x xs ih =>
    rw [shiftLeftLoop, ih]
    split <;> split <;> simp only [List.length_modify]

/-- `operator<<=(unsigned int shift)`: `k = shift / 32` words and `shift % 32` bits. -/
def shiftLeft (a : base_uint WIDTH) (shift : ℕ) : base_uint WIDTH :=
  ⟨shiftLeftLoop (shift / 32) (shift % 32) 0 a.pn (List.replicate WIDTH 0), by
    rw [length_shiftLeftLoop, List.length_replicate]⟩

/-- The loop of `operator>>=`: word `i` of the old value, shifted by `s` bits, is or-ed
into word `i - k`, and its low bits into word `i - k - 1`. -/
def shiftRightLoop (k s : ℕ) : ℕ → List UInt32 → List UInt32 → List UInt32
  | _, [], pn => pn
  | i, x :: xs, pn =>
    let pn := if k + 1 ≤ i ∧ s ≠ 0 then
      pn.modify (i - k - 1) (· ||| (x <<< UInt32.ofNat (32 - s))) else pn
    let pn := if k ≤ i then pn.modify (i - k) (· ||| (x >>> UInt32.ofNat s)) else pn
    shiftRightLoop k s (i + 1) xs pn

theorem length_shiftRightLoop (k s i : ℕ) (xs pn : List UInt32) :
    (shiftRightLoop k s i xs pn).length = pn.length := by
  induction xs generalizing i pn with
  | nil => rfl
  | cons x xs ih =>
    rw [shiftRightLoop, ih]
    split <;> split <;> simp only [List.length_modify]

/-- `operator>>=(unsigned int shift)`. -/
def shiftRight (a : base_uint WIDTH) (shift : ℕ) : base_uint WIDTH :=
  ⟨shiftRightLoop (shift / 32) (shift % 32) 0 a.pn (List.replicate WIDTH 0), by
    rw [length_shiftRightLoop, List.length_replicate]⟩

/-- The inner loop of `bits()`: the highest `nbits` from `n` down to `1` with
`pn[pos] & 1 << nbits`, or `0`. -/
def topBit (x : UInt32) : ℕ → ℕ
  | 0 => 0
  | n + 1 => if x &&& (1 <<< UInt32.ofNat (n + 1)) ≠ 0 then n + 1 else topBit x n

/-- The outer loop of `bits()`, over the words below `pos`, from the top. -/
def bitsLoop (pn : List UInt32) : ℕ → ℕ
  | 0 => 0
  | pos + 1 => if pn.getD pos 0 ≠ 0 then 32 * pos + topBit (pn.getD pos 0) 31 + 1 else bitsLoop pn pos

/-- `bits()`: the position of the highest set bit, plus one. -/
def bits (a : base_uint WIDTH) : ℕ :=
  bitsLoop a.pn WIDTH

/-- The loop of `CompareTo`, over the words below `i`, from the top. -/
def compareLoop (a b : List UInt32) : ℕ → ℤ
  | 0 => 0
  | i + 1 =>
    if a.getD i 0 < b.getD i 0 then -1
    else if a.getD i 0 > b.getD i 0 then 1
    else compareLoop a b i

/-- `CompareTo`: `-1`, `0` or `1`. -/
def CompareTo (a b : base_uint WIDTH) : ℤ :=
  compareLoop a.pn b.pn WIDTH

/-- The step of `operator/=` that sets bit `shift` of the quotient:
`pn[shift / 32] |= (1 << (shift & 31))`. -/
def setBit (q : base_uint WIDTH) (shift : ℕ) : base_uint WIDTH :=
  ⟨q.pn.modify (shift / 32) (· ||| (1 <<< UInt32.ofNat (shift % 32))), by rw [List.length_modify, q.length_pn]⟩

/-- The loop of `operator/=`, from `shift` down to `0`: where the shifted divisor fits in
what is left of the numerator, it is subtracted and bit `shift` of the quotient set; the
divisor then moves down a bit. -/
def divLoop : base_uint WIDTH → base_uint WIDTH → base_uint WIDTH → ℕ → base_uint WIDTH
  | num, div, q, shift =>
    let step := if num.CompareTo div ≥ 0 then (num.sub div, q.setBit shift) else (num, q)
    match shift with
    | 0 => step.2
    | s + 1 => divLoop step.1 (div.shiftRight 1) step.2 s

/-- `operator/=`: `uint_error("Division by zero")` for a zero divisor. -/
def divide (a b : base_uint WIDTH) : Except String (base_uint WIDTH) :=
  let div := b
  let num := a
  let num_bits := num.bits
  let div_bits := div.bits
  if div_bits = 0 then .error "Division by zero"
  else if div_bits > num_bits then .ok zero
  else
    let shift := num_bits - div_bits
    .ok (divLoop num (div.shiftLeft shift) zero shift)

/-! ## The value of the words -/

@[simp]
theorem val_nil : val [] = 0 :=
  rfl

@[simp]
theorem val_cons (x : UInt32) (xs : List UInt32) : val (x :: xs) = x.toNat + 2 ^ 32 * val xs := by
  rw [val, List.map_cons, Nat.ofDigits_cons]
  rfl

theorem val_lt (l : List UInt32) : val l < (2 ^ 32) ^ l.length := by
  rw [← List.length_map UInt32.toNat]
  apply Nat.ofDigits_lt_base_pow_length (by norm_num)
  intro x hx
  obtain ⟨y, _, rfl⟩ := List.mem_map.1 hx
  exact UInt32.toNat_lt y

theorem toNat_lt (a : base_uint WIDTH) : a.toNat < (2 ^ 32) ^ WIDTH := by
  have h := val_lt a.pn
  rwa [a.length_pn] at h

theorem val_append (l₁ l₂ : List UInt32) : val (l₁ ++ l₂) = val l₁ + (2 ^ 32) ^ l₁.length * val l₂ := by
  rw [val, List.map_append, Nat.ofDigits_append, List.length_map]
  rfl

/-- The words below `j` and those from `j` on. -/
theorem val_take_add_drop {l : List UInt32} {j : ℕ} (hj : j ≤ l.length) :
    val (l.take j) + (2 ^ 32) ^ j * val (l.drop j) = val l := by
  have h := val_append (l.take j) (l.drop j)
  rw [List.take_append_drop, List.length_take, Nat.min_eq_left hj] at h
  exact h.symm

@[simp]
theorem val_replicate_zero (n : ℕ) : val (List.replicate n 0) = 0 := by
  induction n with
  | zero => rfl
  | succ n ih => rw [List.replicate_succ, val_cons, ih, UInt32.toNat_zero, Nat.mul_zero]

/-! ## Addition, complement, increment and subtraction -/

theorem val_addLoop (carry : ℕ) {xs ys : List UInt32} (h : xs.length = ys.length) :
    val (addLoop carry xs ys) = (carry + val xs + val ys) % (2 ^ 32) ^ xs.length := by
  induction xs generalizing carry ys with
  | nil => rw [List.length_nil, pow_zero, Nat.mod_one]; rfl
  | cons x xs ih =>
    cases ys with
    | nil => exact absurd h (by simp)
    | cons y ys =>
      rw [List.length_cons, List.length_cons, Nat.add_right_cancel_iff] at h
      -- the low word is stored and the rest carried into the words above
      rw [addLoop, val_cons, UInt32.toNat_ofNat', ih _ h, Nat.add_assoc ((carry + x.toNat + y.toNat) / 2 ^ 32),
        Digits.mod_add_mul_mod_pow (by norm_num), List.length_cons, val_cons, val_cons]
      congr 1
      ring

theorem toNat_add (a b : base_uint WIDTH) : (a.add b).toNat = (a.toNat + b.toNat) % (2 ^ 32) ^ WIDTH := by
  rw [toNat, add, val_addLoop 0 (a.length_pn.trans b.length_pn.symm), a.length_pn, Nat.zero_add]
  rfl

theorem val_map_complement (l : List UInt32) : val l + val (l.map (~~~ ·)) = (2 ^ 32) ^ l.length - 1 := by
  induction l with
  | nil => rfl
  | cons x xs ih =>
    rw [List.map_cons, val_cons, val_cons, UInt32.toNat_not, List.length_cons, pow_succ' (2 ^ 32) xs.length,
      show UInt32.size = 2 ^ 32 from rfl]
    have hx := UInt32.toNat_lt x
    generalize hP : (2 ^ 32) ^ xs.length = P at ih
    have hP1 : 1 ≤ P := hP ▸ Nat.one_le_pow _ _ (by norm_num)
    -- the words add up to `2^32 - 1` each
    have hrest : 2 ^ 32 * val xs + 2 ^ 32 * val (xs.map (~~~ ·)) = 2 ^ 32 * P - 2 ^ 32 := by
      rw [← Nat.mul_add, ih, Nat.mul_sub_one]
    omega

theorem toNat_complement (a : base_uint WIDTH) : a.complement.toNat = (2 ^ 32) ^ WIDTH - 1 - a.toNat := by
  have h := val_map_complement a.pn
  rw [a.length_pn] at h
  show val (a.pn.map (~~~ ·)) = _ - 1 - val a.pn
  omega

theorem val_incLoop (l : List UInt32) : val (incLoop l) = (val l + 1) % (2 ^ 32) ^ l.length := by
  induction l with
  | nil => rfl
  | cons x xs ih =>
    have hx := UInt32.toNat_lt x
    rw [incLoop, List.length_cons, val_cons, pow_succ' (2 ^ 32) xs.length]
    split
    · next hwrap =>
      -- the word wraps to zero and the increment carries into the words above
      have hx' : x.toNat = 2 ^ 32 - 1 := by
        have := congrArg UInt32.toNat hwrap
        rw [UInt32.toNat_add, UInt32.toNat_one, UInt32.toNat_zero] at this
        omega
      have hlow : (x + 1).toNat = 0 := by rw [hwrap, UInt32.toNat_zero]
      rw [val_cons, ih, hlow, hx', show 2 ^ 32 - 1 + 2 ^ 32 * val xs + 1 = 2 ^ 32 * (val xs + 1) by omega,
        Nat.mul_mod_mul_left, Nat.zero_add]
    · next hwrap =>
      -- the word takes the increment and nothing carries
      have hx' : x.toNat + 1 < 2 ^ 32 := by
        by_contra hge
        apply hwrap
        apply UInt32.toNat_inj.1
        rw [UInt32.toNat_add, UInt32.toNat_one, UInt32.toNat_zero]
        omega
      have hv := val_lt xs
      generalize (2 ^ 32) ^ xs.length = P at hv
      have hle : 2 ^ 32 * val xs + 2 ^ 32 ≤ 2 ^ 32 * P := by
        rw [← Nat.mul_succ]
        exact Nat.mul_le_mul_left _ hv
      rw [val_cons, UInt32.toNat_add, UInt32.toNat_one, Nat.mod_eq_of_lt hx', Nat.mod_eq_of_lt (by omega)]
      omega

theorem toNat_inc (a : base_uint WIDTH) : a.inc.toNat = (a.toNat + 1) % (2 ^ 32) ^ WIDTH := by
  rw [toNat, inc, val_incLoop, a.length_pn]
  rfl

theorem toNat_neg (a : base_uint WIDTH) : a.neg.toNat = ((2 ^ 32) ^ WIDTH - a.toNat) % (2 ^ 32) ^ WIDTH := by
  have ha := a.toNat_lt
  rw [neg, toNat_inc, toNat_complement]
  congr 1
  omega

theorem toNat_sub (a b : base_uint WIDTH) :
    (a.sub b).toNat = (a.toNat + ((2 ^ 32) ^ WIDTH - b.toNat)) % (2 ^ 32) ^ WIDTH := by
  rw [sub, toNat_add, toNat_neg, Nat.add_mod_mod]

/-- Subtracting no more than there is leaves the difference. -/
theorem toNat_sub_of_le {a b : base_uint WIDTH} (h : b.toNat ≤ a.toNat) : (a.sub b).toNat = a.toNat - b.toNat := by
  have ha := a.toNat_lt
  rw [toNat_sub, show a.toNat + ((2 ^ 32) ^ WIDTH - b.toNat) = (a.toNat - b.toNat) + (2 ^ 32) ^ WIDTH by omega,
    Nat.add_mod_right, Nat.mod_eq_of_lt (by omega)]

/-- `-=` as integers: the difference modulo `2^(32 WIDTH)`. -/
theorem toNat_sub_int (a b : base_uint WIDTH) :
    ((a.sub b).toNat : ℤ) = ((a.toNat : ℤ) - b.toNat) % ((2 ^ 32) ^ WIDTH : ℕ) := by
  have hb := b.toNat_lt
  rw [toNat_sub, Int.natCast_mod, Nat.cast_add, Nat.cast_sub hb.le,
    show (a.toNat : ℤ) + ((((2 ^ 32) ^ WIDTH : ℕ) : ℤ) - b.toNat) = (a.toNat - b.toNat) + (((2 ^ 32) ^ WIDTH : ℕ) : ℤ)
      by ring, Int.add_emod_right]

/-! ## Multiplication -/

theorem val_mul32Loop (b32 : UInt32) (carry : ℕ) (xs : List UInt32) :
    val (mul32Loop b32 carry xs) = (carry + b32.toNat * val xs) % (2 ^ 32) ^ xs.length := by
  induction xs generalizing carry with
  | nil => rw [List.length_nil, pow_zero, Nat.mod_one]; rfl
  | cons x xs ih =>
    rw [mul32Loop, val_cons, UInt32.toNat_ofNat', ih, Digits.mod_add_mul_mod_pow (by norm_num), List.length_cons,
      val_cons]
    congr 1
    ring

theorem toNat_mul32 (a : base_uint WIDTH) (b32 : UInt32) :
    (a.mul32 b32).toNat = (a.toNat * b32.toNat) % (2 ^ 32) ^ WIDTH := by
  rw [toNat, mul32, val_mul32Loop, a.length_pn, Nat.zero_add, Nat.mul_comm]
  rfl

theorem val_mulAddLoop (aj : UInt32) (carry : ℕ) {ps ys : List UInt32} (h : ps.length ≤ ys.length) :
    val (mulAddLoop aj carry ps ys) = (carry + val ps + aj.toNat * val ys) % (2 ^ 32) ^ ps.length := by
  induction ps generalizing carry ys with
  | nil => rw [List.length_nil, pow_zero, Nat.mod_one]; rfl
  | cons p ps ih =>
    cases ys with
    | nil => exact absurd h (by simp)
    | cons y ys =>
      rw [List.length_cons, List.length_cons, Nat.add_le_add_iff_right] at h
      rw [mulAddLoop, val_cons, UInt32.toNat_ofNat', ih _ h,
        Nat.add_assoc ((carry + p.toNat + aj.toNat * y.toNat) / 2 ^ 32) (val ps),
        Digits.mod_add_mul_mod_pow (by norm_num), List.length_cons, val_cons, val_cons]
      congr 1
      ring

theorem val_mulLoop {b : List UInt32} (hb : b.length = WIDTH) :
    ∀ (j : ℕ) (as pn : List UInt32), pn.length = WIDTH → j + as.length = WIDTH →
      val (mulLoop b j as pn) = (val pn + (2 ^ 32) ^ j * val as * val b) % (2 ^ 32) ^ WIDTH
  | j, [], pn, hpn, _ => by
    rw [mulLoop, val_nil, Nat.mul_zero, Nat.zero_mul, Nat.add_zero, Nat.mod_eq_of_lt (hpn ▸ val_lt pn)]
  | j, aj :: as, pn, hpn, hj => by
    rw [List.length_cons] at hj
    -- row `j`: the words below `j` stay, those from `j` on take `aj * b`
    have hrow : (pn.take j ++ mulAddLoop aj 0 (pn.drop j) b).length = WIDTH := by
      rw [List.length_append, List.length_take, length_mulAddLoop, List.length_drop]
      omega
    have hval : val (pn.take j ++ mulAddLoop aj 0 (pn.drop j) b) =
        (val pn + (2 ^ 32) ^ j * aj.toNat * val b) % (2 ^ 32) ^ WIDTH := by
      have hj' : j ≤ pn.length := by omega
      have hlow : val (pn.take j) < (2 ^ 32) ^ j := by
        have := val_lt (pn.take j)
        rwa [List.length_take, Nat.min_eq_left hj'] at this
      rw [val_append, List.length_take, Nat.min_eq_left hj',
        val_mulAddLoop aj 0 (by rw [List.length_drop, hb]; omega), List.length_drop, Nat.zero_add,
        Digits.add_mul_mod_pow (by norm_num) hlow, hpn, Nat.add_sub_cancel' (by omega), ← val_take_add_drop hj']
      congr 1
      ring
    rw [mulLoop, val_mulLoop hb (j + 1) as _ hrow (by omega), hval, Nat.mod_add_mod, val_cons]
    congr 1
    ring

theorem toNat_mul (a b : base_uint WIDTH) : (a.mul b).toNat = (a.toNat * b.toNat) % (2 ^ 32) ^ WIDTH := by
  rw [toNat, mul, val_mulLoop b.length_pn 0 a.pn _ List.length_replicate (by rw [a.length_pn, Nat.zero_add]),
    val_replicate_zero, pow_zero, Nat.one_mul, Nat.zero_add]
  rfl

/-! ## Shifts

The shifts are proved bit by bit (`testBit_val`): each pass of a loop ors one old word,
moved, into the one or two new words its bits land in, and those are the bits of the word
in the value moved by `shift`. -/

theorem lt_of_mem_map_toNat {l : List UInt32} : ∀ x ∈ l.map UInt32.toNat, x < 2 ^ 32 := by
  intro x hx
  obtain ⟨y, _, rfl⟩ := List.mem_map.1 hx
  exact UInt32.toNat_lt y

/-- Bit `q` of the value: bit `q % 32` of word `q / 32`. -/
theorem testBit_val (l : List UInt32) (q : ℕ) :
    (val l).testBit q = (l.getD (q / 32) 0).toNat.testBit (q % 32) := by
  have hd : (l.map UInt32.toNat).getD (q / 32) 0 = (l.getD (q / 32) 0).toNat := List.getD_map l 0 UInt32.toNat
  rw [val, Digits.testBit_ofDigits (by norm_num) lt_of_mem_map_toNat q, hd]

theorem testBit_shiftLeft_word (x : UInt32) {s r : ℕ} (hs : s < 32) (hr : r < 32) :
    (x <<< UInt32.ofNat s).toNat.testBit r = (decide (s ≤ r) && x.toNat.testBit (r - s)) := by
  rw [UInt32.toNat_shiftLeft, UInt32.toNat_ofNat', Nat.mod_eq_of_lt (by omega : s < 2 ^ 32), Nat.mod_eq_of_lt hs,
    Nat.testBit_mod_two_pow, Nat.testBit_shiftLeft, decide_eq_true hr, Bool.true_and]

theorem testBit_shiftRight_word (x : UInt32) {s : ℕ} (hs : s < 32) (r : ℕ) :
    (x >>> UInt32.ofNat s).toNat.testBit r = x.toNat.testBit (s + r) := by
  rw [UInt32.toNat_shiftRight, UInt32.toNat_ofNat', Nat.mod_eq_of_lt (by omega : s < 2 ^ 32), Nat.mod_eq_of_lt hs,
    Nat.testBit_shiftRight]

theorem testBit_word_of_le (x : UInt32) {r : ℕ} (hr : 32 ≤ r) : x.toNat.testBit r = false :=
  Nat.testBit_lt_two_pow (Nat.lt_of_lt_of_le (UInt32.toNat_lt x) (Nat.pow_le_pow_right (by norm_num) hr))

/-- Word `x` moved up by `32 m + s` bits: `x <<< s` in word `m`, and its top `s` bits,
`x >>> (32 - s)`, in word `m + 1`. -/
theorem testBit_word_mul_two_pow (x : UInt32) (m : ℕ) {s : ℕ} (hs : s < 32) (q : ℕ) :
    (x.toNat * 2 ^ (32 * m + s)).testBit q =
      ((decide (q / 32 = m) && (x <<< UInt32.ofNat s).toNat.testBit (q % 32)) ||
        (decide (q / 32 = m + 1 ∧ s ≠ 0) && (x >>> UInt32.ofNat (32 - s)).toNat.testBit (q % 32))) := by
  rw [Nat.testBit_mul_two_pow, testBit_shiftLeft_word x hs (Nat.mod_lt _ (by norm_num))]
  by_cases hlow : q / 32 = m ∧ s ≤ q % 32
  · -- the bit comes from `x <<< s`
    rw [decide_eq_true (by omega : 32 * m + s ≤ q), decide_eq_true hlow.1, decide_eq_true hlow.2,
      decide_eq_false (by omega : ¬(q / 32 = m + 1 ∧ s ≠ 0)), show q - (32 * m + s) = q % 32 - s by omega]
    simp only [Bool.true_and, Bool.false_and, Bool.or_false]
  by_cases hhigh : q / 32 = m + 1 ∧ q % 32 < s
  · -- the bit comes from `x >>> (32 - s)`
    rw [testBit_shiftRight_word x (s := 32 - s) (by omega), decide_eq_true (by omega : 32 * m + s ≤ q),
      decide_eq_false (by omega : ¬q / 32 = m), decide_eq_true (by omega : q / 32 = m + 1 ∧ s ≠ 0),
      show q - (32 * m + s) = 32 - s + q % 32 by omega]
    simp only [Bool.true_and, Bool.false_and, Bool.false_or]
  -- anywhere else the bit is outside `x`, or shifted out of its word
  have hout : (decide (32 * m + s ≤ q) && x.toNat.testBit (q - (32 * m + s))) = false := by
    by_cases hq : 32 * m + s ≤ q
    · rw [testBit_word_of_le x (by omega), Bool.and_false]
    · rw [decide_eq_false hq, Bool.false_and]
  have hshl : (decide (q / 32 = m) && (decide (s ≤ q % 32) && x.toNat.testBit (q % 32 - s))) = false := by
    by_cases hm : q / 32 = m
    · rw [decide_eq_false (by omega : ¬s ≤ q % 32), Bool.false_and, Bool.and_false]
    · rw [decide_eq_false hm, Bool.false_and]
  have hshr : (decide (q / 32 = m + 1 ∧ s ≠ 0) && (x >>> UInt32.ofNat (32 - s)).toNat.testBit (q % 32)) = false := by
    by_cases hm : q / 32 = m + 1 ∧ s ≠ 0
    · rw [testBit_shiftRight_word x (s := 32 - s) (by omega), testBit_word_of_le x (by omega), Bool.and_false]
    · rw [decide_eq_false hm, Bool.false_and]
  rw [hout, hshl, hshr, Bool.false_or]

/-- Word `x` at word `i`, moved down by `32 k + s` bits: `x >>> s` in word `i - k`, and
its low `s` bits, `x <<< (32 - s)`, in word `i - k - 1`; nothing below word `0`. -/
theorem testBit_word_mul_two_pow_add (x : UInt32) (i k : ℕ) {s : ℕ} (hs : s < 32) (q : ℕ) :
    (x.toNat * 2 ^ (32 * i)).testBit (q + (32 * k + s)) =
      ((decide (k ≤ i ∧ q / 32 = i - k) && (x >>> UInt32.ofNat s).toNat.testBit (q % 32)) ||
        (decide (k + 1 ≤ i ∧ q / 32 = i - k - 1 ∧ s ≠ 0) &&
          (x <<< UInt32.ofNat (32 - s)).toNat.testBit (q % 32))) := by
  rw [Nat.testBit_mul_two_pow, testBit_shiftRight_word x hs]
  by_cases hlow : k ≤ i ∧ q / 32 = i - k
  · -- the bit comes from `x >>> s`
    rw [decide_eq_true (by omega : 32 * i ≤ q + (32 * k + s)), decide_eq_true hlow,
      decide_eq_false (by omega : ¬(k + 1 ≤ i ∧ q / 32 = i - k - 1 ∧ s ≠ 0)),
      show q + (32 * k + s) - 32 * i = s + q % 32 by omega]
    simp only [Bool.true_and, Bool.false_and, Bool.or_false]
  by_cases hhigh : k + 1 ≤ i ∧ q / 32 = i - k - 1 ∧ s ≠ 0
  · -- the bit comes from `x <<< (32 - s)`, or from below `x` where `q % 32 < 32 - s`
    rw [testBit_shiftLeft_word x (s := 32 - s) (by omega) (Nat.mod_lt _ (by norm_num)), decide_eq_false hlow,
      decide_eq_true hhigh, Bool.false_and, Bool.false_or, Bool.true_and]
    by_cases hq : 32 - s ≤ q % 32
    · rw [decide_eq_true (by omega : 32 * i ≤ q + (32 * k + s)), decide_eq_true hq,
        show q + (32 * k + s) - 32 * i = q % 32 - (32 - s) by omega]
    · rw [decide_eq_false (by omega : ¬32 * i ≤ q + (32 * k + s)), decide_eq_false hq, Bool.false_and,
        Bool.false_and]
  -- anywhere else the bit is outside `x`
  have hout : (decide (32 * i ≤ q + (32 * k + s)) && x.toNat.testBit (q + (32 * k + s) - 32 * i)) = false := by
    by_cases hq : 32 * i ≤ q + (32 * k + s)
    · rw [testBit_word_of_le x (by omega), Bool.and_false]
    · rw [decide_eq_false hq, Bool.false_and]
  rw [hout, decide_eq_false hlow, decide_eq_false hhigh, Bool.false_and, Bool.false_and, Bool.false_or]

/-- The bits of words placed `n` bits up: those of the first word, and those of the rest
`32` bits above. -/
theorem testBit_val_cons_mul_two_pow (x : UInt32) (xs : List UInt32) (n q : ℕ) :
    (val (x :: xs) * 2 ^ n).testBit q = ((x.toNat * 2 ^ n).testBit q || (val xs * 2 ^ (n + 32)).testBit q) := by
  have hx : x.toNat * 2 ^ n < 2 ^ (n + 32) := by
    rw [Nat.pow_add, Nat.mul_comm (2 ^ n)]
    exact Nat.mul_lt_mul_of_pos_right (UInt32.toNat_lt x) (Nat.two_pow_pos n)
  have hsplit : val (x :: xs) * 2 ^ n = 2 ^ (n + 32) * val xs ||| x.toNat * 2 ^ n := by
    rw [← Nat.two_pow_add_eq_or_of_lt hx, val_cons, Nat.pow_add]
    ring
  rw [hsplit, Nat.testBit_or, Nat.mul_comm (2 ^ (n + 32)), Bool.or_comm]

theorem length_guard_modify (c : Prop) [Decidable c] (l : List UInt32) (p : ℕ) (f : UInt32 → UInt32) :
    (if c then l.modify p f else l).length = l.length := by
  split <;> simp only [List.length_modify]

/-- Or-ing `y` into word `p` sets the bits of `y` in that word, where the word exists. -/
theorem testBit_val_modify_or (l : List UInt32) (p : ℕ) (y : UInt32) (q : ℕ) :
    (val (l.modify p (· ||| y))).testBit q =
      ((val l).testBit q || (decide (q / 32 = p ∧ p < l.length) && y.toNat.testBit (q % 32))) := by
  rw [testBit_val, testBit_val]
  by_cases hj : q / 32 < l.length
  · rw [List.getD_eq_getElem _ _ (by rwa [List.length_modify]), List.getElem_modify, List.getD_eq_getElem _ _ hj]
    by_cases hp : p = q / 32
    · rw [if_pos hp, UInt32.toNat_or, Nat.testBit_or, decide_eq_true ⟨hp.symm, hp ▸ hj⟩, Bool.true_and]
    · rw [if_neg hp, decide_eq_false (by rintro ⟨hqp, -⟩; exact hp hqp.symm), Bool.false_and, Bool.or_false]
  · rw [List.getD_eq_default _ _ (by rw [List.length_modify]; omega), List.getD_eq_default _ _ (by omega),
      decide_eq_false (by rintro ⟨hqp, hpl⟩; omega), Bool.false_and, Bool.or_false]

/-- The same under a guard: nothing where the guard fails. -/
theorem testBit_val_guard_modify_or (c : Prop) [Decidable c] (l : List UInt32) (p : ℕ) (y : UInt32) (q : ℕ) :
    (val (if c then l.modify p (· ||| y) else l)).testBit q =
      ((val l).testBit q || (decide (c ∧ q / 32 = p ∧ p < l.length) && y.toNat.testBit (q % 32))) := by
  by_cases hc : c
  · rw [if_pos hc, testBit_val_modify_or, decide_eq_decide.2 (and_iff_right hc)]
  · rw [if_neg hc, decide_eq_false (fun h => hc h.1), Bool.false_and, Bool.or_false]

/-- The loop of `<<=` from word `i` of the old value on: the bits of the words left,
`32 (i + k) + s` bits up, are set, within the buffer. -/
theorem testBit_shiftLeftLoop (k : ℕ) {s : ℕ} (hs : s < 32) (i : ℕ) (xs pn : List UInt32) {q : ℕ}
    (hq : q < 32 * pn.length) :
    (val (shiftLeftLoop k s i xs pn)).testBit q =
      ((val pn).testBit q || (val xs * 2 ^ (32 * (i + k) + s)).testBit q) := by
  induction xs generalizing i pn with
  | nil => rw [shiftLeftLoop, val_nil, Nat.zero_mul, Nat.zero_testBit, Bool.or_false]
  | cons x xs ih =>
    -- the pass ors `x` into words `i + k + 1` and `i + k`; the words after it are moved from `i + 1` on
    rw [shiftLeftLoop]
    rw [ih (i + 1) _ (by rwa [length_guard_modify, length_guard_modify]), testBit_val_guard_modify_or,
      testBit_val_guard_modify_or, length_guard_modify, testBit_val_cons_mul_two_pow, testBit_word_mul_two_pow x _ hs,
      show 32 * (i + k) + s + 32 = 32 * (i + 1 + k) + s by ring]
    have hhigh : decide ((i + k + 1 < pn.length ∧ s ≠ 0) ∧ q / 32 = i + k + 1 ∧ i + k + 1 < pn.length) =
        decide (q / 32 = i + k + 1 ∧ s ≠ 0) := by
      rw [decide_eq_decide]
      omega
    have hlow : decide (i + k < pn.length ∧ q / 32 = i + k ∧ i + k < pn.length) = decide (q / 32 = i + k) := by
      rw [decide_eq_decide]
      omega
    rw [hhigh, hlow]
    simp only [Bool.or_assoc, Bool.or_comm, Bool.or_left_comm]

/-- The loop of `>>=` from word `i` of the old value on: the bits of the words left,
`32 k + s` bits down from word `i`, are set, within the buffer. -/
theorem testBit_shiftRightLoop {k s : ℕ} (hs : s < 32) (i : ℕ) (xs pn : List UInt32) {q : ℕ}
    (hq : q < 32 * pn.length) :
    (val (shiftRightLoop k s i xs pn)).testBit q =
      ((val pn).testBit q || (val xs * 2 ^ (32 * i)).testBit (q + (32 * k + s))) := by
  induction xs generalizing i pn with
  | nil => rw [shiftRightLoop, val_nil, Nat.zero_mul, Nat.zero_testBit, Bool.or_false]
  | cons x xs ih =>
    -- the pass ors `x` into words `i - k - 1` and `i - k`; the words after it are moved from `i + 1` on
    rw [shiftRightLoop]
    rw [ih (i + 1) _ (by rwa [length_guard_modify, length_guard_modify]), testBit_val_guard_modify_or,
      testBit_val_guard_modify_or, length_guard_modify, testBit_val_cons_mul_two_pow,
      testBit_word_mul_two_pow_add x i k hs, show 32 * i + 32 = 32 * (i + 1) by ring]
    have hhigh : decide ((k + 1 ≤ i ∧ s ≠ 0) ∧ q / 32 = i - k - 1 ∧ i - k - 1 < pn.length) =
        decide (k + 1 ≤ i ∧ q / 32 = i - k - 1 ∧ s ≠ 0) := by
      rw [decide_eq_decide]
      omega
    have hlow : decide (k ≤ i ∧ q / 32 = i - k ∧ i - k < pn.length) = decide (k ≤ i ∧ q / 32 = i - k) := by
      rw [decide_eq_decide]
      omega
    rw [hhigh, hlow]
    simp only [Bool.or_assoc, Bool.or_comm, Bool.or_left_comm]

/-- `<<=` multiplies by `2^shift`, modulo `2^(32 WIDTH)`. -/
theorem toNat_shiftLeft (a : base_uint WIDTH) (shift : ℕ) :
    (a.shiftLeft shift).toNat = a.toNat * 2 ^ shift % (2 ^ 32) ^ WIDTH := by
  apply Nat.eq_of_testBit_eq
  intro q
  rw [← pow_mul, Nat.testBit_mod_two_pow]
  by_cases hq : q < 32 * WIDTH
  · have hq' : q < 32 * (List.replicate WIDTH (0 : UInt32)).length := by rwa [List.length_replicate]
    rw [toNat, shiftLeft, testBit_shiftLeftLoop _ (Nat.mod_lt _ (by norm_num)) 0 a.pn _ hq', val_replicate_zero,
      Nat.zero_testBit, Bool.false_or, Nat.zero_add, Nat.div_add_mod, decide_eq_true hq, Bool.true_and]
    rfl
  · -- above the width both are clear
    have hlt : (a.shiftLeft shift).toNat < 2 ^ q := by
      have h := (a.shiftLeft shift).toNat_lt
      rw [← pow_mul] at h
      exact Nat.lt_of_lt_of_le h (Nat.pow_le_pow_right (by norm_num) (by omega))
    rw [Nat.testBit_lt_two_pow hlt, decide_eq_false hq, Bool.false_and]

/-- `>>=` divides by `2^shift`, rounding down. -/
theorem toNat_shiftRight (a : base_uint WIDTH) (shift : ℕ) : (a.shiftRight shift).toNat = a.toNat / 2 ^ shift := by
  apply Nat.eq_of_testBit_eq
  intro q
  rw [Nat.testBit_div_two_pow]
  by_cases hq : q < 32 * WIDTH
  · have hq' : q < 32 * (List.replicate WIDTH (0 : UInt32)).length := by rwa [List.length_replicate]
    rw [toNat, shiftRight, testBit_shiftRightLoop (Nat.mod_lt _ (by norm_num)) 0 a.pn _ hq', val_replicate_zero,
      Nat.zero_testBit, Bool.false_or, Nat.mul_zero, pow_zero, Nat.mul_one, Nat.div_add_mod]
    rfl
  · -- above the width both are clear
    have hpow : (2 ^ 32) ^ WIDTH ≤ 2 ^ q := by
      rw [← pow_mul]
      exact Nat.pow_le_pow_right (by norm_num) (by omega)
    have hpow' : 2 ^ q ≤ 2 ^ (q + shift) := Nat.pow_le_pow_right (by norm_num) (by omega)
    rw [Nat.testBit_lt_two_pow (Nat.lt_of_lt_of_le (a.shiftRight shift).toNat_lt hpow),
      Nat.testBit_lt_two_pow (Nat.lt_of_lt_of_le a.toNat_lt (Nat.le_trans hpow hpow'))]

/-! ## bits() and CompareTo -/

theorem toNat_one_shiftLeft {r : ℕ} (hr : r < 32) : ((1 : UInt32) <<< UInt32.ofNat r).toNat = 2 ^ r := by
  rw [UInt32.toNat_shiftLeft, UInt32.toNat_one, UInt32.toNat_ofNat', Nat.mod_eq_of_lt (by omega : r < 2 ^ 32),
    Nat.mod_eq_of_lt hr, Nat.one_shiftLeft, Nat.mod_eq_of_lt (Nat.pow_lt_pow_right (by norm_num) hr)]

/-- `pn[pos] & 1 << nbits` tests bit `nbits` of the word. -/
theorem and_one_shiftLeft_ne_zero (x : UInt32) {r : ℕ} (hr : r < 32) :
    x &&& ((1 : UInt32) <<< UInt32.ofNat r) ≠ 0 ↔ x.toNat.testBit r = true := by
  rw [Ne, ← UInt32.toNat_inj, UInt32.toNat_and, toNat_one_shiftLeft hr, Nat.and_two_pow, UInt32.toNat_zero]
  cases x.toNat.testBit r <;> simp

/-- The inner loop of `bits()` below `2^(n + 1)`: the bit length of the word, less one. -/
theorem topBit_eq (x : UInt32) : ∀ n, n < 32 → x.toNat < 2 ^ (n + 1) → topBit x n = x.toNat.size - 1
  | 0, _, hx => by
    have := Nat.size_le.2 hx
    rw [topBit]
    omega
  | n + 1, hn, hx => by
    rw [topBit]
    by_cases hbit : x.toNat.testBit (n + 1) = true
    · -- bit `n + 1` is the top one
      rw [if_pos ((and_one_shiftLeft_ne_zero x hn).2 hbit)]
      have h1 := Nat.lt_size.2 (Nat.ge_two_pow_of_testBit hbit)
      have h2 := Nat.size_le.2 hx
      omega
    · rw [if_neg (fun h => hbit ((and_one_shiftLeft_ne_zero x hn).1 h))]
      -- with bit `n + 1` clear the word is below `2^(n + 1)`
      apply topBit_eq x n (by omega) (Nat.lt_pow_two_of_testBit x.toNat fun i hi => ?_)
      rcases Nat.eq_or_lt_of_le hi with rfl | hi
      · exact Bool.eq_false_iff.2 hbit
      · exact Nat.testBit_lt_two_pow (Nat.lt_of_lt_of_le hx (Nat.pow_le_pow_right (by norm_num) hi))

/-- The words below `i + 1`: those below `i`, and word `i` above them. -/
theorem val_take_succ {l : List UInt32} {i : ℕ} (hi : i < l.length) :
    val (l.take (i + 1)) = val (l.take i) + 2 ^ (32 * i) * (l.getD i 0).toNat := by
  rw [List.take_add_one, List.getElem?_eq_getElem hi, Option.toList_some, val_append, List.length_take,
    Nat.min_eq_left (Nat.le_of_lt hi), ← pow_mul, val_cons, val_nil, Nat.mul_zero, Nat.add_zero,
    List.getD_eq_getElem _ _ hi]

theorem bitsLoop_eq {pn : List UInt32} : ∀ pos, pos ≤ pn.length → bitsLoop pn pos = (val (pn.take pos)).size
  | 0, _ => by rw [bitsLoop, List.take_zero, val_nil, Nat.size_zero]
  | pos + 1, hpos => by
    have hlow : val (pn.take pos) < 2 ^ (32 * pos) := by
      have h := val_lt (pn.take pos)
      rwa [List.length_take, Nat.min_eq_left (by omega), ← pow_mul] at h
    rw [bitsLoop, val_take_succ (by omega)]
    split
    · next hw =>
      -- the top nonzero word and the words below it
      have hw' : (pn.getD pos 0).toNat ≠ 0 := fun h => hw (UInt32.toNat_inj.1 (h.trans UInt32.toNat_zero.symm))
      have hsize := Nat.size_pos.2 (Nat.pos_of_ne_zero hw')
      rw [Digits.size_add_two_pow_mul hlow hw', topBit_eq _ 31 (by norm_num) (UInt32.toNat_lt _)]
      omega
    · next hw =>
      rw [not_not.1 hw, UInt32.toNat_zero, Nat.mul_zero, Nat.add_zero, bitsLoop_eq pos (by omega)]

/-- `bits()` is the bit length of the value. -/
theorem bits_eq (a : base_uint WIDTH) : a.bits = a.toNat.size := by
  rw [bits, bitsLoop_eq WIDTH (by rw [a.length_pn]), List.take_of_length_le (by rw [a.length_pn])]
  rfl

/-- Below a base `B`, the higher digit decides. -/
theorem add_mul_lt_add_mul {B x y u v : ℕ} (hx : x < B) (huv : u < v) : x + B * u < y + B * v :=
  calc x + B * u < B * (u + 1) := by rw [Nat.mul_succ]; omega
    _ ≤ B * v := Nat.mul_le_mul_left _ huv
    _ ≤ y + B * v := Nat.le_add_left _ _

theorem compareLoop_eq {a b : List UInt32} : ∀ i, i ≤ a.length → i ≤ b.length →
    compareLoop a b i =
      if val (a.take i) < val (b.take i) then -1 else if val (b.take i) < val (a.take i) then 1 else 0
  | 0, _, _ => by rw [compareLoop, List.take_zero, List.take_zero, if_neg (Nat.lt_irrefl _), if_neg (Nat.lt_irrefl _)]
  | i + 1, ha, hb => by
    have hla : val (a.take i) < 2 ^ (32 * i) := by
      have h := val_lt (a.take i)
      rwa [List.length_take, Nat.min_eq_left (by omega), ← pow_mul] at h
    have hlb : val (b.take i) < 2 ^ (32 * i) := by
      have h := val_lt (b.take i)
      rwa [List.length_take, Nat.min_eq_left (by omega), ← pow_mul] at h
    rw [compareLoop, val_take_succ (by omega : i < a.length), val_take_succ (by omega : i < b.length)]
    -- the words at `i` decide where they differ; otherwise the words below do
    by_cases hlt : a.getD i 0 < b.getD i 0
    · rw [if_pos hlt, if_pos (add_mul_lt_add_mul hla (UInt32.lt_iff_toNat_lt.1 hlt))]
    by_cases hgt : a.getD i 0 > b.getD i 0
    · rw [if_neg hlt, if_pos hgt, if_neg (Nat.lt_asymm (add_mul_lt_add_mul hlb (UInt32.lt_iff_toNat_lt.1 hgt))),
        if_pos (add_mul_lt_add_mul hlb (UInt32.lt_iff_toNat_lt.1 hgt))]
    have heq : (a.getD i 0).toNat = (b.getD i 0).toNat := by
      rw [UInt32.lt_iff_toNat_lt] at hlt
      rw [gt_iff_lt, UInt32.lt_iff_toNat_lt] at hgt
      omega
    rw [if_neg hlt, if_neg hgt, compareLoop_eq i (by omega) (by omega), heq]
    simp only [Nat.add_lt_add_iff_right]

/-- `CompareTo` compares the values. -/
theorem CompareTo_eq (a b : base_uint WIDTH) :
    a.CompareTo b = if a.toNat < b.toNat then -1 else if b.toNat < a.toNat then 1 else 0 := by
  rw [CompareTo, compareLoop_eq WIDTH (by rw [a.length_pn]) (by rw [b.length_pn]),
    List.take_of_length_le (by rw [a.length_pn]), List.take_of_length_le (by rw [b.length_pn])]
  rfl

theorem CompareTo_nonneg_iff (a b : base_uint WIDTH) : a.CompareTo b ≥ 0 ↔ b.toNat ≤ a.toNat := by
  rw [CompareTo_eq]
  split
  · next h => exact ⟨fun h' => absurd h' (by decide), fun h' => absurd h (Nat.not_lt.2 h')⟩
  · next h => split <;> simp only [ge_iff_le, Int.reduceLE, true_iff] <;> omega

theorem CompareTo_pos_iff (a b : base_uint WIDTH) : a.CompareTo b > 0 ↔ b.toNat < a.toNat := by
  rw [CompareTo_eq]
  split
  · next h => exact ⟨fun h' => absurd h' (by decide), fun h' => absurd h (Nat.lt_asymm h')⟩
  · next h => split <;> simp only [gt_iff_lt, Int.reduceLT, true_iff, false_iff] <;> omega

/-! ## Division -/

/-- Setting bit `shift` of the quotient, within the width. -/
theorem toNat_setBit (q : base_uint WIDTH) {shift : ℕ} (h : shift < 32 * WIDTH) :
    (q.setBit shift).toNat = q.toNat ||| 2 ^ shift := by
  apply Nat.eq_of_testBit_eq
  intro j
  rw [toNat, setBit, testBit_val_modify_or, toNat_one_shiftLeft (Nat.mod_lt _ (by norm_num)), Nat.testBit_or,
    Nat.testBit_two_pow, Nat.testBit_two_pow, q.length_pn]
  congr 1
  rw [← Bool.decide_and, decide_eq_decide]
  omega

/-- The invariant of the loop of `/=` dividing `a` by `b`, at bit `t`: the divisor is `b`
moved up `t` bits, what is left of the numerator and the quotient so far make up `a`,
what is left is below twice the divisor, and the quotient has no bit at `t` or below. -/
structure DivInv (a b : ℕ) (num div q : base_uint WIDTH) (t : ℕ) : Prop where
  div_eq : div.toNat = b * 2 ^ t
  num_add : num.toNat + q.toNat * b = a
  num_lt : num.toNat < b * 2 ^ (t + 1)
  dvd_q : 2 ^ (t + 1) ∣ q.toNat
  lt_width : t < 32 * WIDTH

/-- One step of the loop of `/=`: afterwards what is left is below the divisor, and the
quotient has no bit below `t`. -/
theorem divStep_spec {a b : ℕ} {num div q : base_uint WIDTH} {t : ℕ} (hI : DivInv a b num div q t) :
    ∃ num' q', (if num.CompareTo div ≥ 0 then (num.sub div, q.setBit t) else (num, q)) = (num', q') ∧
      num'.toNat + q'.toNat * b = a ∧ num'.toNat < b * 2 ^ t ∧ 2 ^ t ∣ q'.toNat := by
  have hdvd : 2 ^ t ∣ q.toNat := Nat.dvd_trans (Nat.pow_dvd_pow 2 (Nat.le_succ t)) hI.dvd_q
  by_cases hfit : num.CompareTo div ≥ 0
  · -- the divisor fits: it is subtracted and bit `t` of the quotient set
    rw [CompareTo_nonneg_iff, hI.div_eq] at hfit
    have hsub : (num.sub div).toNat = num.toNat - b * 2 ^ t := by
      rw [toNat_sub_of_le (by rw [hI.div_eq]; exact hfit), hI.div_eq]
    obtain ⟨c, hc⟩ := hI.dvd_q
    have hset : (q.setBit t).toNat = q.toNat + 2 ^ t := by
      rw [toNat_setBit q hI.lt_width, hc, Nat.two_pow_add_eq_or_of_lt (Nat.pow_lt_pow_right (by norm_num) (Nat.lt_succ_self t))]
    refine ⟨_, _, if_pos ((CompareTo_nonneg_iff _ _).2 (by rw [hI.div_eq]; exact hfit)), ?_, ?_, ?_⟩
    · rw [hsub, hset, Nat.add_mul, ← hI.num_add]
      have := Nat.mul_comm (2 ^ t) b
      omega
    · have := hI.num_lt
      rw [hsub, pow_succ, ← Nat.mul_assoc] at *
      omega
    · rw [hset]
      exact Nat.dvd_add hdvd (Nat.dvd_refl _)
  · -- the divisor does not fit: nothing changes
    have hlt : num.toNat < b * 2 ^ t := by
      rw [CompareTo_nonneg_iff, hI.div_eq, Nat.not_le] at hfit
      exact hfit
    exact ⟨_, _, if_neg hfit, hI.num_add, hlt, hdvd⟩

/-- The loop of `/=` from bit `t` down ends with the quotient. -/
theorem divLoop_spec {a b : ℕ} (hb : 0 < b) :
    ∀ (t : ℕ) (num div q : base_uint WIDTH), DivInv a b num div q t → (divLoop num div q t).toNat = a / b
  | t, num, div, q, hI => by
    obtain ⟨num', q', hstep, hadd, hlt, hdvd⟩ := divStep_spec hI
    cases t with
    | zero =>
      -- the last step: what is left is below `b`
      rw [divLoop]
      simp only [hstep]
      rw [← hadd, Nat.add_mul_div_right _ _ hb, Nat.div_eq_of_lt (by rw [pow_zero, Nat.mul_one] at hlt; exact hlt),
        Nat.zero_add]
    | succ s =>
      -- the divisor moves down a bit for the next step
      rw [divLoop]
      simp only [hstep]
      apply divLoop_spec hb s
      refine ⟨?_, hadd, hlt, hdvd, Nat.lt_of_succ_lt hI.lt_width⟩
      rw [toNat_shiftRight, hI.div_eq, pow_succ, ← Nat.mul_assoc, pow_one, Nat.mul_div_cancel _ (by norm_num)]

/-- `/=` divides, rounding down, and throws `uint_error` exactly on a zero divisor. -/
theorem divide_map_toNat (a b : base_uint WIDTH) :
    (a.divide b).map toNat = if b.toNat = 0 then .error "Division by zero" else .ok (a.toNat / b.toNat) := by
  rw [divide]
  simp only [bits_eq]
  by_cases hb : b.toNat = 0
  · rw [if_pos (by rw [hb, Nat.size_zero]), if_pos hb]
    rfl
  have hbs : 0 < b.toNat.size := Nat.size_pos.2 (Nat.pos_of_ne_zero hb)
  rw [if_neg (by omega), if_neg hb]
  have hab : a.toNat < 2 ^ a.toNat.size := Nat.size_le.1 le_rfl
  have hbge : 2 ^ (b.toNat.size - 1) ≤ b.toNat := Nat.lt_size.1 (by omega)
  split
  · next hgt =>
    -- a divisor longer than the numerator: the quotient is zero
    have hlt : a.toNat < b.toNat :=
      Nat.lt_of_lt_of_le hab (Nat.le_trans (Nat.pow_le_pow_right (by norm_num) (by omega)) hbge)
    rw [Nat.div_eq_of_lt hlt]
    show Except.ok (val (List.replicate WIDTH 0)) = _
    rw [val_replicate_zero]
  · next hle =>
    have hwidth : a.toNat.size ≤ 32 * WIDTH := by
      rw [Nat.size_le, pow_mul]
      exact a.toNat_lt
    -- the divisor moved up to the numerator's length starts the loop
    have hdiv : (b.shiftLeft (a.toNat.size - b.toNat.size)).toNat = b.toNat * 2 ^ (a.toNat.size - b.toNat.size) := by
      rw [toNat_shiftLeft, Nat.mod_eq_of_lt]
      have hbl : b.toNat < 2 ^ b.toNat.size := Nat.size_le.1 le_rfl
      calc b.toNat * 2 ^ (a.toNat.size - b.toNat.size) < 2 ^ b.toNat.size * 2 ^ (a.toNat.size - b.toNat.size) :=
            Nat.mul_lt_mul_of_pos_right hbl (Nat.two_pow_pos _)
        _ = 2 ^ a.toNat.size := by rw [← pow_add]; congr 1; omega
        _ ≤ (2 ^ 32) ^ WIDTH := by rw [← pow_mul]; exact Nat.pow_le_pow_right (by norm_num) hwidth
    have hnum : a.toNat < b.toNat * 2 ^ (a.toNat.size - b.toNat.size + 1) :=
      calc a.toNat < 2 ^ a.toNat.size := hab
        _ = 2 ^ (b.toNat.size - 1) * 2 ^ (a.toNat.size - b.toNat.size + 1) := by rw [← pow_add]; congr 1; omega
        _ ≤ b.toNat * 2 ^ (a.toNat.size - b.toNat.size + 1) := Nat.mul_le_mul_right _ hbge
    have hI : DivInv a.toNat b.toNat a (b.shiftLeft (a.toNat.size - b.toNat.size)) zero
        (a.toNat.size - b.toNat.size) :=
      ⟨hdiv, by rw [show (zero : base_uint WIDTH).toNat = 0 from val_replicate_zero WIDTH, Nat.zero_mul, Nat.add_zero],
        hnum, by rw [show (zero : base_uint WIDTH).toNat = 0 from val_replicate_zero WIDTH]; exact Nat.dvd_zero _,
        by omega⟩
    show Except.ok (divLoop a _ zero _).toNat = _
    rw [divLoop_spec (Nat.pos_of_ne_zero hb) _ _ _ _ hI]

/-! ## Conversions and equality -/

theorem eq_of_toNat_eq {a b : base_uint WIDTH} (h : a.toNat = b.toNat) : a = b := by
  have hmap : a.pn.map UInt32.toNat = b.pn.map UInt32.toNat :=
    Nat.ofDigits_inj_of_len_eq (by norm_num) (by rw [List.length_map, List.length_map, a.length_pn, b.length_pn])
      lt_of_mem_map_toNat lt_of_mem_map_toNat h
  have hpn : a.pn = b.pn := List.map_injective_iff.2 (fun x y hxy => UInt32.toNat_inj.1 hxy) hmap
  cases a
  cases b
  cases hpn
  rfl

/-- Two words and the words above them. -/
theorem val_cons_cons (x y : UInt32) (l : List UInt32) :
    val (x :: y :: l) = (x.toNat + 2 ^ 32 * y.toNat) + 2 ^ 64 * val l := by
  rw [val_cons, val_cons]
  ring

theorem val_eq_zero_iff (l : List UInt32) : val l = 0 ↔ ∀ x ∈ l, x = 0 := by
  induction l with
  | nil => simp
  | cons x l ih =>
    rw [val_cons, List.forall_mem_cons, ← ih, ← UInt32.toNat_inj, UInt32.toNat_zero]
    omega

/-- With two words or more, the first two and the rest. -/
theorem exists_pn_eq_cons_cons (hW : 2 ≤ WIDTH) (a : base_uint WIDTH) : ∃ x y l, a.pn = x :: y :: l := by
  have hlen := a.length_pn
  match a.pn, hlen with
  | x :: y :: l, _ => exact ⟨x, y, l, rfl⟩
  | [], h => rw [List.length_nil] at h; omega
  | [_], h => rw [List.length_singleton] at h; omega

/-- `base_uint(uint64_t b)` holds `b`, with two words or more. -/
theorem toNat_ofUInt64 (hW : 2 ≤ WIDTH) (b : UInt64) : (ofUInt64 b : base_uint WIDTH).toNat = b.toNat := by
  have hlen : ([b.toUInt32, (b >>> 32).toUInt32] ++ List.replicate (WIDTH - 2) (0 : UInt32)).length = WIDTH := by
    rw [List.length_append, List.length_replicate]
    simp only [List.length_cons, List.length_nil]
    omega
  have hhi : (b >>> 32).toNat = b.toNat / 2 ^ 32 := by
    rw [UInt64.toNat_shiftRight, Nat.shiftRight_eq_div_pow]
    rfl
  have hb := UInt64.toNat_lt b
  show val (List.take WIDTH _) = _
  rw [List.take_of_length_le (Nat.le_of_eq hlen), List.cons_append, List.cons_append, val_cons_cons,
    List.nil_append, val_replicate_zero, UInt64.toNat_toUInt32, UInt64.toNat_toUInt32, hhi,
    Nat.mod_eq_of_lt (by omega : b.toNat / 2 ^ 32 < 2 ^ 32), Nat.mul_zero, Nat.add_zero, Nat.mod_add_div]

/-- `GetLow64()`: the value modulo `2^64`, with two words or more. -/
theorem toNat_GetLow64 (hW : 2 ≤ WIDTH) (a : base_uint WIDTH) : a.GetLow64.toNat = a.toNat % 2 ^ 64 := by
  obtain ⟨x, y, l, hl⟩ := exists_pn_eq_cons_cons hW a
  have hx := UInt32.toNat_lt x
  have hy := UInt32.toNat_lt y
  have hlow : x.toNat + 2 ^ 32 * y.toNat < 2 ^ 64 := by omega
  have hor : x.toNat ||| y.toNat * 2 ^ 32 = x.toNat + 2 ^ 32 * y.toNat := by
    rw [Nat.lor_comm, ← Nat.shiftLeft_eq, Digits.mul_two_pow_or_of_lt _ hx, Nat.mul_comm]
    omega
  rw [GetLow64, toNat, hl, val_cons_cons, Nat.mul_comm (2 ^ 64), Nat.add_mul_mod_self_right, Nat.mod_eq_of_lt hlow,
    UInt64.toNat_or, UInt64.toNat_shiftLeft, UInt32.toNat_toUInt64, UInt32.toNat_toUInt64]
  show x.toNat ||| y.toNat <<< 32 % 2 ^ 64 = _
  rw [Nat.shiftLeft_eq, Nat.mod_eq_of_lt (by omega), hor]

/-- `operator==(uint64_t)` compares the values, with two words or more. -/
theorem EqualTo_iff (hW : 2 ≤ WIDTH) (a : base_uint WIDTH) (b : UInt64) : a.EqualTo b = true ↔ a.toNat = b.toNat := by
  obtain ⟨x, y, l, hl⟩ := exists_pn_eq_cons_cons hW a
  have hx := UInt32.toNat_lt x
  have hy := UInt32.toNat_lt y
  have hb := UInt64.toNat_lt b
  have hhi : (b >>> 32).toNat = b.toNat / 2 ^ 32 := by
    rw [UInt64.toNat_shiftRight, Nat.shiftRight_eq_div_pow]
    rfl
  have hlo : (b &&& 0xffffffff).toNat = b.toNat % 2 ^ 32 := by
    rw [UInt64.toNat_and, show (0xffffffff : UInt64).toNat = 2 ^ 32 - 1 from rfl, Nat.and_two_pow_sub_one_eq_mod]
  rw [EqualTo, toNat, hl, val_cons_cons]
  simp only [List.drop_succ_cons, List.drop_zero, List.getD_cons_succ, List.getD_cons_zero, Bool.and_eq_true,
    List.all_eq_true, beq_iff_eq, ← UInt64.toNat_inj, UInt32.toNat_toUInt64, hhi, hlo]
  rw [← val_eq_zero_iff]
  -- the words from `2` on are zero exactly when the value is below `2^64`
  constructor
  · rintro ⟨⟨hrest, hy'⟩, hx'⟩
    rw [hrest, hy', hx', Nat.mul_zero, Nat.add_zero, Nat.mod_add_div]
  · intro h
    have hrest : val l = 0 := by
      by_contra hne
      have : 2 ^ 64 ≤ 2 ^ 64 * val l := Nat.le_mul_of_pos_right _ (Nat.pos_of_ne_zero hne)
      omega
    rw [hrest, Nat.mul_zero, Nat.add_zero] at h
    omega

/-- With a nonzero divisor `/=` does not throw. -/
theorem divide_ne_error {a b : base_uint WIDTH} (hb : b.toNat ≠ 0) (e : String) : a.divide b ≠ .error e := by
  intro h
  have hmap := divide_map_toNat a b
  rw [if_neg hb, h] at hmap
  cases hmap

theorem toNat_of_divide_eq_ok {a b q : base_uint WIDTH} (hb : b.toNat ≠ 0) (h : a.divide b = .ok q) :
    q.toNat = a.toNat / b.toNat := by
  have hmap := divide_map_toNat a b
  rw [if_neg hb, h] at hmap
  exact Except.ok.inj hmap

/-- With a nonzero divisor `/=` returns the quotient. -/
theorem divide_eq_ok {a b : base_uint WIDTH} (hb : b.toNat ≠ 0) :
    ∃ q, a.divide b = .ok q ∧ q.toNat = a.toNat / b.toNat := by
  cases hd : a.divide b with
  | error e => exact absurd hd (divide_ne_error hb e)
  | ok q => exact ⟨q, rfl, toNat_of_divide_eq_ok hb hd⟩

end base_uint

/-- `arith_uint256`: `/=` divides rounding down and throws exactly on a zero divisor;
`*=`, `+=`, `-=` and `<<=` compute modulo `2^256`, and `>>=` rounds down. -/
theorem arith_uint256_operators (a b : arith_uint256) (b32 : UInt32) (shift : ℕ) :
    (a.divide b).map base_uint.toNat =
        (if b.toNat = 0 then .error "Division by zero" else .ok (a.toNat / b.toNat)) ∧
      (a.mul b).toNat = a.toNat * b.toNat % 2 ^ 256 ∧
      (a.mul32 b32).toNat = a.toNat * b32.toNat % 2 ^ 256 ∧
      (a.add b).toNat = (a.toNat + b.toNat) % 2 ^ 256 ∧
      ((a.sub b).toNat : ℤ) = ((a.toNat : ℤ) - b.toNat) % 2 ^ 256 ∧
      (a.shiftLeft shift).toNat = a.toNat * 2 ^ shift % 2 ^ 256 ∧
      (a.shiftRight shift).toNat = a.toNat / 2 ^ shift := by
  have hM : ((2 : ℕ) ^ 32) ^ 8 = 2 ^ 256 := by norm_num
  refine ⟨base_uint.divide_map_toNat a b, ?_, ?_, ?_, ?_, ?_, base_uint.toNat_shiftRight a shift⟩
  · rw [base_uint.toNat_mul, hM]
  · rw [base_uint.toNat_mul32, hM]
  · rw [base_uint.toNat_add, hM]
  · rw [base_uint.toNat_sub_int, hM, Nat.cast_pow, Nat.cast_ofNat]
  · rw [base_uint.toNat_shiftLeft, hM]

end BitcoinPQ

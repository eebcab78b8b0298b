import Mathlib.Data.Nat.Digits.Lemmas
import Mathlib.Tactic.Ring
import Mathlib.Data.Nat.Size

/-!
# Digit lists

A number written in a base as a list of digits: most significant digit first
(`beValue`), or least significant first as in `Nat.ofDigits`, possibly with zeros above
some position. A conversion between bases reads the digits of one base and builds those
of the other, and the minimal digits of a number are `Nat.digits`: dropping the leading
zeros of any digit list of the number gives them. The last section treats a number in
base `2 ^ k` as bit fields combined by exclusive or.
-/

namespace Digits

/-- The number that a big-endian digit list denotes. -/
def beValue (b : ℕ) (l : List ℕ) : ℕ := Nat.ofDigits b l.reverse

@[simp] theorem beValue_nil (b : ℕ) : beValue b [] = 0 := rfl

@[simp] theorem beValue_append_singleton (b : ℕ) (l : List ℕ) (d : ℕ) :
    beValue b (l ++ [d]) = beValue b l * b + d := by
  rw [beValue, List.reverse_append, List.reverse_singleton, List.singleton_append, Nat.ofDigits_cons,
    beValue]
  ring

theorem beValue_cons (b d : ℕ) (l : List ℕ) : beValue b (d :: l) = d * b ^ l.length + beValue b l := by
  rw [beValue, List.reverse_cons, Nat.ofDigits_append, Nat.ofDigits_singleton, List.length_reverse,
    beValue]
  ring

theorem beValue_append (b : ℕ) (l₁ l₂ : List ℕ) :
    beValue b (l₁ ++ l₂) = beValue b l₁ * b ^ l₂.length + beValue b l₂ := by
  rw [beValue, List.reverse_append, Nat.ofDigits_append, List.length_reverse, beValue, beValue]
  ring

theorem beValue_lt {b : ℕ} (hb : 1 < b) {l : List ℕ} (h : ∀ x ∈ l, x < b) :
    beValue b l < b ^ l.length := by
  have hlt := Nat.ofDigits_lt_base_pow_length hb (fun x hx => h x (List.mem_reverse.mp hx))
  rwa [List.length_reverse] at hlt

/-- Leading zeros do not count. -/
@[simp] theorem beValue_replicate_zero_append (b n : ℕ) (l : List ℕ) :
    beValue b (List.replicate n 0 ++ l) = beValue b l := by
  induction n with
  | zero => rfl
  | succ n ih => rw [List.replicate_succ, List.cons_append, beValue_cons, ih, zero_mul, zero_add]

/-- Two digit lists of one length denote one number only if they are equal. -/
theorem beValue_inj {b : ℕ} (hb : 1 < b) {l₁ l₂ : List ℕ} (hlen : l₁.length = l₂.length)
    (h₁ : ∀ x ∈ l₁, x < b) (h₂ : ∀ x ∈ l₂, x < b) (heq : beValue b l₁ = beValue b l₂) : l₁ = l₂ := by
  have hrev : l₁.reverse = l₂.reverse :=
    Nat.ofDigits_inj_of_len_eq hb (by rw [List.length_reverse, List.length_reverse, hlen])
      (fun x hx => h₁ x (List.mem_reverse.mp hx)) (fun x hx => h₂ x (List.mem_reverse.mp hx)) heq
  exact List.reverse_inj.mp hrev

/-- The first digit fixes the number to within one unit of its place. -/
theorem le_beValue_cons (b d : ℕ) (l : List ℕ) : d * b ^ l.length ≤ beValue b (d :: l) := by
  rw [beValue_cons]
  exact Nat.le_add_right _ _

theorem beValue_cons_lt {b : ℕ} (hb : 1 < b) (d : ℕ) {l : List ℕ} (h : ∀ x ∈ l, x < b) :
    beValue b (d :: l) < (d + 1) * b ^ l.length := by
  rw [beValue_cons, add_mul, one_mul]
  exact Nat.add_lt_add_left (beValue_lt hb h) _

/-- The first digit is the quotient of the number by its place. -/
theorem beValue_cons_div {b : ℕ} (hb : 1 < b) (d : ℕ) {l : List ℕ} (h : ∀ x ∈ l, x < b) :
    beValue b (d :: l) / b ^ l.length = d :=
  Nat.div_eq_of_lt_le (le_beValue_cons b d l) (beValue_cons_lt hb d h)

/-- The `k` low digits of `m`, most significant first, denote `m % b ^ k`. -/
theorem beValue_range_map (b m k : ℕ) :
    beValue b ((List.range k).map fun i => m / b ^ (k - 1 - i) % b) = m % b ^ k := by
  induction k generalizing m with
  | zero => simp [Nat.mod_one]
  | succ k ih =>
    -- the digits above the lowest one are those of `m / b`
    have hhigh : ((List.range k).map fun i => m / b ^ (k + 1 - 1 - i) % b) =
        (List.range k).map fun i => m / b / b ^ (k - 1 - i) % b := by
      apply List.map_congr_left
      intro i hi
      have hik : k + 1 - 1 - i = k - 1 - i + 1 := by
        have := List.mem_range.mp hi
        omega
      rw [hik, pow_succ', ← Nat.div_div_eq_div_mul]
    rw [List.range_succ, List.map_append, hhigh, List.map_singleton, beValue_append_singleton, ih,
      pow_succ', Nat.mod_mul, Nat.add_sub_cancel, Nat.sub_self, pow_zero, Nat.div_one]
    ring

/-- The digits from position `n` on are zero. -/
def ZeroFrom (n : ℕ) (l : List ℕ) : Prop := ∀ j, n ≤ j → l.getD j 0 = 0

theorem ZeroFrom.mono {m n : ℕ} {l : List ℕ} (h : ZeroFrom m l) (hmn : m ≤ n) : ZeroFrom n l :=
  fun j hj => h j (le_trans hmn hj)

theorem ZeroFrom.tail {n : ℕ} {d : ℕ} {l : List ℕ} (h : ZeroFrom (n + 1) (d :: l)) : ZeroFrom n l :=
  fun j hj => h (j + 1) (by omega)

theorem ZeroFrom.replicate (n k : ℕ) : ZeroFrom n (List.replicate k 0) := by
  intro j _
  rw [List.getD_eq_getElem?_getD, List.getElem?_replicate]
  split_ifs <;> rfl

/-- A list that is zero from position `0` on denotes `0`. -/
theorem ofDigits_of_zeroFrom_zero {b : ℕ} {l : List ℕ} (h : ZeroFrom 0 l) : Nat.ofDigits b l = 0 := by
  induction l with
  | nil => rfl
  | cons d l ih =>
    have hd : d = 0 := h 0 le_rfl
    rw [Nat.ofDigits_cons, hd, ih (fun j _ => h (j + 1) (by omega)), mul_zero, add_zero]

/-- Zeros from position `n` on do not change the number. -/
theorem ofDigits_take_of_zeroFrom {b n : ℕ} {l : List ℕ} (h : ZeroFrom n l) :
    Nat.ofDigits b (l.take n) = Nat.ofDigits b l := by
  induction l generalizing n with
  | nil => simp
  | cons d l ih =>
    cases n with
    | zero => rw [List.take_zero, ofDigits_of_zeroFrom_zero h]; rfl
    | succ n => rw [List.take_succ_cons, Nat.ofDigits_cons, Nat.ofDigits_cons, ih h.tail]

/-- Dropping the leading zeros of a big-endian list leaves the minimal digits. -/
theorem dropWhile_reverse {b : ℕ} (hb : 1 < b) {l : List ℕ} (h : ∀ x ∈ l, x < b) :
    l.reverse.dropWhile (· == 0) = (Nat.digits b (Nat.ofDigits b l)).reverse := by
  induction l with
  | nil => simp
  | cons d l ih =>
    have hd : d < b := h d (List.mem_cons_self ..)
    have ih := ih (fun x hx => h x (List.mem_cons_of_mem d hx))
    rw [List.reverse_cons, List.dropWhile_append, ih, Nat.ofDigits_cons]
    by_cases hl : Nat.ofDigits b l = 0
    case pos =>
      -- only the lowest digit can be nonzero
      rw [hl, mul_zero, add_zero, Nat.digits_zero, List.reverse_nil]
      simp only [List.isEmpty_nil, ↓reduceIte]
      by_cases hd0 : d = 0
      case pos => simp [hd0]
      case neg => simp [hd0, Nat.digits_of_lt b d hd0 hd]
    case neg =>
      have hne : (Nat.digits b (Nat.ofDigits b l)).reverse ≠ [] := by
        simpa using Nat.digits_ne_nil_iff_ne_zero.mpr hl
      rw [if_neg (by simpa using hne), Nat.digits_add b hb d _ hd (Or.inr hl), List.reverse_cons]

/-- The minimal digits of a big-endian list without a leading zero are the list. -/
theorem digits_beValue {b : ℕ} (hb : 1 < b) {l : List ℕ} (h : ∀ x ∈ l, x < b)
    (hhead : l.head? ≠ some 0) : (Nat.digits b (beValue b l)).reverse = l := by
  rw [beValue, ← dropWhile_reverse hb (fun x hx => h x (List.mem_reverse.mp hx)), List.reverse_reverse]
  cases l with
  | nil => rfl
  | cons d l =>
    have hd : d ≠ 0 := fun h0 => hhead (by rw [h0]; rfl)
    simp [hd]

/-- The minimal digits of a positive number start with a nonzero digit. -/
theorem head?_reverse_digits_ne_zero (b n : ℕ) : (Nat.digits b n).reverse.head? ≠ some 0 := by
  rw [List.head?_reverse]
  by_cases hn : n = 0
  case pos => simp [hn]
  case neg =>
    rw [List.getLast?_eq_some_getLast (Nat.digits_ne_nil_iff_ne_zero.mpr hn)]
    exact fun h => Nat.getLast_digit_ne_zero b hn (Option.some.inj h)

/-- A buffer of `q * n / p + 1` digits in base `b` holds `n` digits in base `a` once
`a ^ p ≤ b ^ q`. -/
theorem pow_lt_pow_div_add_one {a b p q : ℕ} (hp : 0 < p) (hb : 1 < b) (h : a ^ p ≤ b ^ q) (n : ℕ) :
    a ^ n < b ^ (q * n / p + 1) := by
  have hlt : q * n < p * (q * n / p + 1) := Nat.lt_mul_div_succ (q * n) hp
  rw [← Nat.pow_lt_pow_iff_left (Nat.pos_iff_ne_zero.mp hp)]
  calc (a ^ n) ^ p = (a ^ p) ^ n := by rw [← pow_mul, ← pow_mul, mul_comm]
    _ ≤ (b ^ q) ^ n := Nat.pow_le_pow_left h n
    _ = b ^ (q * n) := by rw [← pow_mul]
    _ < b ^ (p * (q * n / p + 1)) := Nat.pow_lt_pow_right hb hlt
    _ = (b ^ (q * n / p + 1)) ^ p := by rw [← pow_mul, mul_comm]

/-! ## Reading digits -/

section Read

variable {α β : Type}

/-- Reading the digits of a string one character at a time. -/
theorem mapM_cons_eq_some {f : α → Option β} {a : α} {as : List α} {bs : List β} :
    (a :: as).mapM f = some bs ↔ ∃ b bs', f a = some b ∧ as.mapM f = some bs' ∧ bs = b :: bs' := by
  simp only [List.mapM_cons, Option.bind_eq_bind, Option.bind_eq_some_iff, Option.pure_def,
    Option.some.injEq]
  constructor
  · rintro ⟨b, hb, bs', hbs', rfl⟩
    exact ⟨b, bs', hb, hbs', rfl⟩
  · rintro ⟨b, bs', hb, hbs', rfl⟩
    exact ⟨b, hb, bs', hbs', rfl⟩

/-- The characters written for some digits read back as those digits. -/
theorem mapM_map_of_inverse {f : α → β} {g : β → Option α} :
    ∀ {l : List α}, (∀ x ∈ l, g (f x) = some x) → (l.map f).mapM g = some l
  | [], _ => rfl
  | x :: l, h => by
    rw [List.map_cons, mapM_cons_eq_some]
    exact ⟨x, l, h x (List.mem_cons_self ..),
      mapM_map_of_inverse (fun y hy => h y (List.mem_cons_of_mem x hy)), rfl⟩

end Read

/-! ## Bit fields -/

/-- Exclusive or with a number below `2 ^ k` leaves the bits from `k` on. -/
theorem xor_div_two_pow_of_lt {c d k : ℕ} (hd : d < 2 ^ k) : (c ^^^ d) / 2 ^ k = c / 2 ^ k := by
  apply Nat.eq_of_testBit_eq
  intro i
  rw [Nat.testBit_div_two_pow, Nat.testBit_div_two_pow, Nat.testBit_xor,
    Nat.testBit_lt_two_pow (lt_of_lt_of_le hd (Nat.pow_le_pow_right (by norm_num) (by omega))),
    Bool.xor_false]

/-- Below `2 ^ k`, exclusive or with a number below `2 ^ k` acts on the low bits. -/
theorem xor_mod_two_pow_of_lt {c d k : ℕ} (hd : d < 2 ^ k) : (c ^^^ d) % 2 ^ k = c % 2 ^ k ^^^ d := by
  apply Nat.eq_of_testBit_eq
  intro i
  rw [Nat.testBit_mod_two_pow, Nat.testBit_xor, Nat.testBit_xor, Nat.testBit_mod_two_pow]
  by_cases hi : i < k
  case pos => simp [hi]
  case neg =>
    rw [Nat.testBit_lt_two_pow (lt_of_lt_of_le hd (Nat.pow_le_pow_right (by norm_num) (by omega)))]
    simp [hi]

theorem xor_mul_two_pow (x y k : ℕ) : (x ^^^ y) * 2 ^ k = x * 2 ^ k ^^^ y * 2 ^ k := by
  rw [← Nat.shiftLeft_eq, ← Nat.shiftLeft_eq, ← Nat.shiftLeft_eq, Nat.shiftLeft_xor_distrib]

/-- A number shifted by `k` bits and one below `2 ^ k` have no bit in common. -/
theorem mul_two_pow_xor_of_lt (x : ℕ) {v k : ℕ} (hv : v < 2 ^ k) : x * 2 ^ k ^^^ v = x * 2 ^ k + v := by
  apply Nat.eq_of_testBit_eq
  intro i
  rw [Nat.testBit_xor, Nat.testBit_mul_two_pow, mul_comm x, Nat.testBit_two_pow_mul_add x hv]
  by_cases hi : i < k
  case pos => simp [hi, show ¬k ≤ i by omega]
  case neg =>
    rw [Nat.testBit_lt_two_pow (lt_of_lt_of_le hv (Nat.pow_le_pow_right (by norm_num) (by omega)))]
    simp [hi, show k ≤ i by omega]

/-- The low `b + k` bits of a number shifted by `k` bits, with `x < 2 ^ k` below. -/
theorem mul_two_pow_add_mod {a x k : ℕ} (hx : x < 2 ^ k) (b : ℕ) :
    (a * 2 ^ k + x) % 2 ^ (b + k) = a % 2 ^ b * 2 ^ k + x := by
  have hlow : (a * 2 ^ k + x) % 2 ^ k = x := by
    rw [Nat.mul_comm, Nat.mul_add_mod, Nat.mod_eq_of_lt hx]
  have hhigh : (a * 2 ^ k + x) / 2 ^ k = a := by
    rw [Nat.mul_comm, Nat.mul_add_div (by positivity), Nat.div_eq_of_lt hx, Nat.add_zero]
  rw [pow_add, Nat.mul_comm (2 ^ b), Nat.mod_mul, hlow, hhigh]
  ring

/-- The low `b + t` bits are the `t` bits above position `b` and the `b` bits below. -/
theorem mod_two_pow_add (a b t : ℕ) : a % 2 ^ (b + t) = a / 2 ^ b % 2 ^ t * 2 ^ b + a % 2 ^ b := by
  rw [pow_add, Nat.mod_mul]
  ring

/-- Shifting the low `b` bits up to the top of `t ≥ b` bits. -/
theorem mul_two_pow_mod_two_pow {a b t : ℕ} (h : b ≤ t) :
    a * 2 ^ (t - b) % 2 ^ t = a % 2 ^ b * 2 ^ (t - b) := by
  rw [← Nat.mul_mod_mul_right, ← pow_add, Nat.add_sub_cancel' h]

/-- A number shifted by `k` bits or'd with one below `2 ^ k`. -/
theorem mul_two_pow_or_of_lt (x : ℕ) {v k : ℕ} (hv : v < 2 ^ k) : x <<< k ||| v = x * 2 ^ k + v := by
  rw [← Nat.shiftLeft_add_eq_or_of_lt hv, Nat.shiftLeft_eq]

/-- A group of `k` bits pushed into an `n`-bit accumulator: its low `bits + k` bits are
the low `bits` bits it held, then the group. -/
theorem shiftLeft_mod_or_mod {acc x k n : ℕ} (hx : x < 2 ^ k) {bits : ℕ} (hk : bits + k ≤ n) :
    ((acc <<< k) % 2 ^ n ||| x) % 2 ^ (bits + k) = acc % 2 ^ bits * 2 ^ k + x := by
  have hshift : (acc <<< k) % 2 ^ n = acc % 2 ^ (n - k) * 2 ^ k := by
    have h := mul_two_pow_mod_two_pow (a := acc) (show n - k ≤ n by omega)
    rwa [Nat.sub_sub_self (by omega), ← Nat.shiftLeft_eq] at h
  have hdvd : 2 ^ bits ∣ 2 ^ (n - k) := Nat.pow_dvd_pow 2 (by omega)
  rw [hshift, ← Nat.shiftLeft_eq, mul_two_pow_or_of_lt _ hx, mul_two_pow_add_mod hx,
    Nat.mod_mod_of_dvd _ hdvd]

/-- Taking the `t` bits above position `r` of an accumulator out as the next digit. -/
theorem beValue_append_div_mod (t : ℕ) (l : List ℕ) (a r : ℕ) :
    beValue (2 ^ t) (l ++ [a / 2 ^ r % 2 ^ t]) * 2 ^ r + a % 2 ^ r =
      beValue (2 ^ t) l * 2 ^ (r + t) + a % 2 ^ (r + t) := by
  rw [beValue_append_singleton, mod_two_pow_add a r t, pow_add]
  ring

/-- Byte `t / 8` of the low `w` bits, cut out by a shift and the matching byte of the
mask `2 ^ w - 1`. -/
theorem shiftRight_and_mask_byte (y t w : ℕ) :
    (y >>> t) &&& ((2 ^ w - 1) >>> t &&& 255) = y % 2 ^ w / 2 ^ t % 256 := by
  apply Nat.eq_of_testBit_eq
  intro i
  rw [show (255 : ℕ) = 2 ^ 8 - 1 from rfl, show (256 : ℕ) = 2 ^ 8 from rfl]
  simp only [Nat.testBit_and, Nat.testBit_shiftRight, Nat.testBit_two_pow_sub_one,
    Nat.testBit_mod_two_pow, Nat.testBit_div_two_pow]
  rw [Nat.add_comm i t]
  cases y.testBit (t + i) <;> simp [Bool.and_comm]

/-- The same byte, masked after it was cut out. -/
theorem byte_and_mask_byte (v t w : ℕ) :
    (v / 2 ^ t % 256) &&& ((2 ^ w - 1) >>> t &&& 255) = v % 2 ^ w / 2 ^ t % 256 := by
  rw [← shiftRight_and_mask_byte, ← Nat.shiftRight_eq_div_pow, show (256 : ℕ) = 2 ^ 8 from rfl,
    ← Nat.and_two_pow_sub_one_eq_mod, Nat.and_assoc, ← Nat.and_assoc (2 ^ 8 - 1), Nat.and_comm (2 ^ 8 - 1),
    Nat.and_assoc, Nat.and_self]

/-! ## Little-endian limbs

A number as its base-`B` digits least significant first, as a loop over machine words
computes it a digit at a time: a carry chain keeps the low digit and carries the rest,
and in base `2 ^ w` bit `q` is bit `q % w` of digit `q / w`. -/

/-- One step of a carry chain: the low digit of `n`, then the carry `n / B` added into
the digits above. -/
theorem mod_add_mul_mod_pow {B : ℕ} (hB : 0 < B) (n m k : ℕ) :
    n % B + B * ((n / B + m) % B ^ k) = (n + B * m) % B ^ (k + 1) := by
  rw [pow_succ', Nat.mod_mul, Nat.add_mul_mod_self_left, Nat.add_mul_div_left _ _ hB]

/-- Adding a multiple of `B^j` keeps the digits below `j`; modulo `B^(j + m)` it only
matters modulo `B^m`. -/
theorem add_mul_mod_pow {B : ℕ} (hB : 0 < B) {x j : ℕ} (hx : x < B ^ j) (y m : ℕ) :
    x + B ^ j * (y % B ^ m) = (x + B ^ j * y) % B ^ (j + m) := by
  rw [pow_add, Nat.mod_mul, Nat.add_mul_mod_self_left, Nat.mod_eq_of_lt hx,
    Nat.add_mul_div_left _ _ (Nat.pow_pos hB), Nat.div_eq_of_lt hx, Nat.zero_add]

/-- Bit `q` of a number in base `2^w` is bit `q % w` of its digit `q / w`. -/
theorem testBit_ofDigits {w : ℕ} (hw : 0 < w) {l : List ℕ} (hl : ∀ x ∈ l, x < 2 ^ w) (q : ℕ) :
    (Nat.ofDigits (2 ^ w) l).testBit q = (l.getD (q / w) 0).testBit (q % w) := by
  induction l generalizing q with
  | nil => rw [Nat.ofDigits_nil, List.getD_nil, Nat.zero_testBit, Nat.zero_testBit]
  | cons d l ih =>
    have hd := hl d List.mem_cons_self
    rw [Nat.ofDigits_cons, Nat.add_comm, Nat.testBit_two_pow_mul_add _ hd]
    split
    · next hq => rw [Nat.div_eq_of_lt hq, List.getD_cons_zero, Nat.mod_eq_of_lt hq]
    · next hq =>
      -- above the first digit: the bits of the rest, `w` lower
      rw [ih (fun x hx => hl x (List.mem_cons_of_mem _ hx)), Nat.div_eq_sub_div (a := q) hw (by omega),
        List.getD_cons_succ, Nat.mod_eq_sub_mod (a := q) (by omega)]

/-- A number whose digits above the low `k` bits make a nonzero `w` is `k` bits longer
than `w`. -/
theorem size_add_two_pow_mul {a k w : ℕ} (ha : a < 2 ^ k) (hw : w ≠ 0) : (a + 2 ^ k * w).size = k + w.size := by
  have hws : 0 < w.size := Nat.size_pos.2 (Nat.pos_of_ne_zero hw)
  apply le_antisymm
  · -- below `2^(k + size w)`
    have hlt : w < 2 ^ w.size := Nat.size_le.1 le_rfl
    rw [Nat.size_le, pow_add]
    calc a + 2 ^ k * w < 2 ^ k + 2 ^ k * w := by omega
      _ = 2 ^ k * (w + 1) := by ring
      _ ≤ 2 ^ k * 2 ^ w.size := Nat.mul_le_mul_left _ hlt
  · -- at least `2^(k + size w - 1)`
    have hge : 2 ^ (w.size - 1) ≤ w := Nat.lt_size.1 (by omega)
    have hlow : k + w.size - 1 < (a + 2 ^ k * w).size := by
      rw [Nat.lt_size, show k + w.size - 1 = k + (w.size - 1) by omega, pow_add]
      calc 2 ^ k * 2 ^ (w.size - 1) ≤ 2 ^ k * w := Nat.mul_le_mul_left _ hge
        _ ≤ a + 2 ^ k * w := Nat.le_add_left _ _
    omega

end Digits

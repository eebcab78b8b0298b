import Mathlib.Algebra.Order.Field.Power
import Mathlib.Data.Rat.Cast.CharZero
import BitcoinPQ.Core.Digits

/-!
# Decimal numerals

Strings of decimal digit characters and the numbers they denote; the significand of a
digit string read from the left, with its trailing zeros counted apart until a non-zero
digit follows them; and the literals `-?(0|[1-9][0-9]*)(\.[0-9]+)?([eE][+-]?[0-9]+)?`
with the rational number each of them denotes.
-/

namespace Decimal

open Digits

/-! ## Digits -/

theorem isDigit_iff {c : Char} : c.isDigit = true ↔ 48 ≤ c.toNat ∧ c.toNat ≤ 57 := by
  simp only [Char.isDigit, Bool.and_eq_true, decide_eq_true_eq, ge_iff_le, UInt32.le_iff_toNat_le]
  rfl

theorem char_le_iff {c d : Char} : c ≤ d ↔ c.toNat ≤ d.toNat := by
  rw [Char.le_def, UInt32.le_iff_toNat_le]
  rfl

/-- The digits other than `0` are those from `1` to `9`. -/
theorem isDigit_ne_zero_iff {c : Char} : (c.isDigit = true ∧ c ≠ '0') ↔ ('1' ≤ c ∧ c ≤ '9') := by
  rw [isDigit_iff, char_le_iff, char_le_iff, ne_eq, ← Char.toNat_inj]
  have h0 : ('0' : Char).toNat = 48 := rfl
  have h1 : ('1' : Char).toNat = 49 := rfl
  have h9 : ('9' : Char).toNat = 57 := rfl
  omega

/-- The value of a decimal digit character. -/
def digitVal (c : Char) : Nat := c.toNat - 48

theorem digitVal_lt {c : Char} (h : c.isDigit = true) : digitVal c < 10 := by
  rw [isDigit_iff] at h
  unfold digitVal
  omega

theorem digitVal_pos {c : Char} (h : c.isDigit = true) (h0 : c ≠ '0') : 0 < digitVal c := by
  rw [isDigit_iff] at h
  have hne : c.toNat ≠ 48 := fun he => h0 (Char.toNat_inj.mp he)
  unfold digitVal
  omega

theorem digitVal_digitChar {n : Nat} (h : n < 10) : digitVal n.digitChar = n :=
  Nat.toNat_digitChar_sub_48_of_lt_ten h

/-- The number a string of decimal digits denotes, most significant digit first. -/
def digitsValue (ds : List Char) : Nat := beValue 10 (ds.map digitVal)

@[simp] theorem digitsValue_nil : digitsValue [] = 0 := rfl

theorem digitsValue_append (ds es : List Char) :
    digitsValue (ds ++ es) = digitsValue ds * 10 ^ es.length + digitsValue es := by
  rw [digitsValue, List.map_append, beValue_append, List.length_map]
  rfl

@[simp] theorem digitsValue_append_singleton (ds : List Char) (c : Char) :
    digitsValue (ds ++ [c]) = digitsValue ds * 10 + digitVal c := by
  rw [digitsValue, List.map_append, List.map_singleton, beValue_append_singleton]
  rfl

theorem digitsValue_cons (c : Char) (ds : List Char) :
    digitsValue (c :: ds) = digitVal c * 10 ^ ds.length + digitsValue ds := by
  rw [digitsValue, List.map_cons, beValue_cons, List.length_map]
  rfl

@[simp] theorem digitsValue_replicate_zero (k : Nat) : digitsValue (List.replicate k '0') = 0 := by
  induction k with
  | zero => rfl
  | succ k ih =>
    rw [List.replicate_succ', digitsValue_append_singleton, ih]
    rfl

/-- `Nat.toDigits 10` writes a number's digits. -/
theorem digitsValue_toDigits (n : Nat) : digitsValue (Nat.toDigits 10 n) = n := by
  induction n using Nat.strong_induction_on with
  | _ n ih =>
    rw [Nat.toDigits_eq_if (by decide)]
    split
    · rw [← List.nil_append [n.digitChar], digitsValue_append_singleton, digitVal_digitChar ‹_›,
        digitsValue_nil, Nat.zero_mul, Nat.zero_add]
    · rw [digitsValue_append_singleton, ih (n / 10) (by omega), digitVal_digitChar (Nat.mod_lt _ (by decide))]
      omega

/-- The first digit that `Nat.toDigits 10` writes is a zero only for zero itself. -/
theorem toDigits_lead (n : Nat) : Nat.toDigits 10 n = ['0'] ∨ ∃ c cs, Nat.toDigits 10 n = c :: cs ∧ c ≠ '0' := by
  induction n using Nat.strong_induction_on with
  | _ n ih =>
    rw [Nat.toDigits_eq_if (by decide)]
    split
    · rcases Nat.eq_zero_or_pos n with rfl | hpos
      · exact Or.inl rfl
      · exact Or.inr ⟨n.digitChar, [], rfl, fun h => by rw [Nat.digitChar_eq_zero] at h; omega⟩
    · right
      rcases ih (n / 10) (by omega) with h0 | ⟨c, cs, hcs, hc⟩
      · -- the quotient is at least one, so it is not written as a single zero
        have hq : Nat.toDigits 10 (n / 10) ≠ ['0'] := by
          intro he
          have hv := digitsValue_toDigits (n / 10)
          rw [he] at hv
          have : digitsValue ['0'] = 0 := rfl
          omega
        exact absurd h0 hq
      · exact ⟨c, cs ++ [(n % 10).digitChar], by rw [hcs, List.cons_append], hc⟩

/-! ## Significands -/

/-- One digit into the significand `p.1` and the count `p.2` of zeros after it: a zero is
only counted, and a non-zero digit multiplies the counted zeros in. -/
def sigStep (p : Nat × Nat) (c : Char) : Nat × Nat :=
  if c = '0' then (p.1, p.2 + 1) else (p.1 * 10 ^ (p.2 + 1) + digitVal c, 0)

theorem sigStep_value (p : Nat × Nat) (c : Char) :
    (sigStep p c).1 * 10 ^ (sigStep p c).2 = p.1 * 10 ^ p.2 * 10 + digitVal c := by
  unfold sigStep
  split
  · subst c
    rw [Nat.pow_succ, ← Nat.mul_assoc]
    rfl
  · rw [Nat.pow_zero, Nat.mul_one, Nat.pow_succ, Nat.mul_assoc]

/-- The significand and its zeros always denote the digits read. -/
theorem foldl_sigStep_value (ds : List Char) : ∀ p : Nat × Nat,
    (ds.foldl sigStep p).1 * 10 ^ (ds.foldl sigStep p).2 = p.1 * 10 ^ p.2 * 10 ^ ds.length + digitsValue ds := by
  induction ds using List.reverseRecOn with
  | nil => intro p; simp
  | append_singleton ds c ih =>
    intro p
    rw [List.foldl_append, List.foldl_cons, List.foldl_nil, sigStep_value, ih, List.length_append,
      List.length_singleton, digitsValue_append_singleton, Nat.pow_succ]
    ring

/-- The significand only grows. -/
theorem le_foldl_sigStep (ds : List Char) : ∀ p : Nat × Nat, p.1 ≤ (ds.foldl sigStep p).1 := by
  induction ds with
  | nil => intro p; exact Nat.le_refl _
  | cons c ds ih =>
    intro p
    refine Nat.le_trans ?_ (ih (sigStep p c))
    unfold sigStep
    split
    · exact Nat.le_refl _
    · exact Nat.le_trans (Nat.le_mul_of_pos_right _ (Nat.pow_pos (by decide))) (Nat.le_add_right _ _)

/-- At most every digit read is a counted zero. -/
theorem foldl_sigStep_snd_le (ds : List Char) : ∀ p : Nat × Nat, (ds.foldl sigStep p).2 ≤ p.2 + ds.length := by
  induction ds with
  | nil => intro p; exact Nat.le_refl _
  | cons c ds ih =>
    intro p
    refine Nat.le_trans (ih (sigStep p c)) ?_
    unfold sigStep
    split <;> simp only [List.length_cons] <;> omega

/-- A significand of digits ends in a non-zero digit, unless it is zero. -/
theorem foldl_sigStep_mod {ds : List Char} (hds : ∀ c ∈ ds, c.isDigit = true) : ∀ p : Nat × Nat,
    (p.1 = 0 ∨ p.1 % 10 ≠ 0) → (ds.foldl sigStep p).1 = 0 ∨ (ds.foldl sigStep p).1 % 10 ≠ 0 := by
  induction ds with
  | nil => intro p hp; exact hp
  | cons c ds ih =>
    intro p hp
    refine ih (fun d hd => hds d (List.mem_cons_of_mem c hd)) (sigStep p c) ?_
    have hc := hds c List.mem_cons_self
    unfold sigStep
    split
    · exact hp
    · -- the new last digit is `c`, which is not zero
      have hlt := digitVal_lt hc
      have hpos := digitVal_pos hc ‹_›
      right
      dsimp only
      rw [Nat.pow_succ, ← Nat.mul_assoc]
      omega

/-! ## Literals -/

/-- The sign of an exponent: none, `+` or `-`. -/
inductive ExpSign
  | none
  | plus
  | minus
  deriving DecidableEq, Repr

/-- The characters of an exponent's sign. -/
def ExpSign.chars : ExpSign → List Char
  | .none => []
  | .plus => ['+']
  | .minus => ['-']

/-- An exponent part `[eE][+-]?[0-9]+`. -/
structure ExpPart where
  marker : Char
  sign : ExpSign
  digits : List Char
  marker_wf : marker = 'e' ∨ marker = 'E'
  digits_ne : digits ≠ []
  digits_wf : ∀ c ∈ digits, c.isDigit = true

/-- The characters of an exponent part. -/
def ExpPart.chars (e : ExpPart) : List Char := e.marker :: e.sign.chars ++ e.digits

/-- The exponent an exponent part denotes. -/
def ExpPart.value (e : ExpPart) : Int :=
  if e.sign = .minus then -(digitsValue e.digits : Int) else digitsValue e.digits

/-- A literal `-?(0|[1-9][0-9]*)(\.[0-9]+)?([eE][+-]?[0-9]+)?`: an optional minus sign, the
whole digits, the digits after the point (none when there is no point) and an optional
exponent part. -/
structure Literal where
  negative : Bool
  whole : List Char
  fraction : List Char
  exponent : Option ExpPart
  whole_digits : ∀ c ∈ whole, c.isDigit = true
  whole_lead : whole = ['0'] ∨ ∃ c cs, whole = c :: cs ∧ c ≠ '0'
  fraction_digits : ∀ c ∈ fraction, c.isDigit = true

/-- The characters after the whole digits and before the exponent part. -/
def fractionChars (fraction : List Char) : List Char := if fraction = [] then [] else '.' :: fraction

/-- The characters of an optional exponent part. -/
def exponentChars : Option ExpPart → List Char
  | none => []
  | some e => e.chars

/-- The text of a literal. -/
def Literal.render (l : Literal) : List Char :=
  (if l.negative then ['-'] else []) ++ l.whole ++ fractionChars l.fraction ++ exponentChars l.exponent

/-- The exponent of an optional exponent part, zero without one. -/
def exponentValue : Option ExpPart → Int
  | none => 0
  | some e => e.value

/-- The number a literal denotes: its digits, the point moved by the exponent. -/
def Literal.value (l : Literal) : ℚ :=
  (if l.negative then -1 else 1) * (digitsValue (l.whole ++ l.fraction) : ℚ) *
    (10 : ℚ) ^ (exponentValue l.exponent - l.fraction.length)

/-- Scaled by `10 ^ d`, a literal whose digits are the significand `m` followed by `z` zeros
is `m` times ten to the exponent less the fraction's length, plus `z` and `d`. -/
theorem Literal.value_mul_zpow (l : Literal) {m z : Nat} (h : m * 10 ^ z = digitsValue (l.whole ++ l.fraction))
    (d : Int) :
    l.value * 10 ^ d =
      (if l.negative then -1 else 1) * (m : ℚ) * 10 ^ (exponentValue l.exponent - l.fraction.length + z + d) := by
  have h10 : (10 : ℚ) ≠ 0 := by norm_num
  have hq : (digitsValue (l.whole ++ l.fraction) : ℚ) = (m : ℚ) * (10 : ℚ) ^ (z : Int) := by
    rw [← h, zpow_natCast]
    push_cast
    ring
  rw [Literal.value, hq, zpow_add₀ h10, zpow_add₀ h10]
  ring

/-- A significand without a trailing zero that some power of ten scales to an integer is
scaled by a natural power: a negative exponent would make ten divide it. -/
theorem exponent_nonneg_of_intCast_eq {m : Nat} {e v : Int} (hm : m % 10 ≠ 0)
    (h : (v : ℚ) = (m : ℚ) * 10 ^ e) : 0 ≤ e := by
  by_contra he
  obtain ⟨k, hk⟩ : ∃ k : Nat, -e = (k + 1 : Nat) := ⟨(-e).toNat - 1, by omega⟩
  have h10 : (10 : ℚ) ≠ 0 := by norm_num
  -- multiplying out the negative power gives `v * 10 ^ (k + 1) = m` in the integers
  have hq : ((v * 10 ^ (k + 1) : Int) : ℚ) = ((m : Int) : ℚ) := by
    have he' : e = -((k + 1 : Nat) : Int) := by omega
    rw [he', zpow_neg, zpow_natCast] at h
    push_cast
    rw [h, mul_assoc, inv_mul_cancel₀ (pow_ne_zero _ h10), mul_one]
  have hz : v * 10 ^ (k + 1) = (m : Int) := Int.cast_inj.mp hq
  have hdvd : (10 : Int) ∣ (m : Int) := ⟨v * 10 ^ k, by rw [← hz, pow_succ]; ring⟩
  omega

end Decimal

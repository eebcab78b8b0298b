import Mathlib.Data.List.TakeWhile
import BitcoinPQ.Core.Decimal

/-!
# Fixed-point amounts from decimal text

`ParseFixedPoint` of `utilstrencodings.cpp`, through which every amount given to the RPC
interface passes: it reads a literal `-?(0|[1-9][0-9]*)(\.[0-9]+)?([eE][+-]?[0-9]+)?`
and writes the number it denotes in units of `10^-decimals`, when that is an integer of
at most eighteen digits. Trailing zeros of the mantissa are only counted, and multiplied
in when a non-zero digit follows them; the decimal point, the exponent and those zeros
end up in one exponent, applied once the text has been read.

The text is the list of its characters, each a byte of the `std::string`. The `int64_t`
locals `mantissa` and `exponent` are `Int`: the tests against `UPPER_BOUND / 10` before
each multiplication keep them in range. The `int` counters are `Nat`; they stay below
the length of the text, which is below `2^31` wherever `val.size()` fits an `int`.
-/

namespace BitcoinPQ

open Decimal

/-- `UPPER_BOUND`: `10^18 - 1`, the largest arbitrary decimal that fits an `int64_t`. -/
def UPPER_BOUND : Int := 1000000000000000000 - 1

theorem UPPER_BOUND_eq : UPPER_BOUND = 999999999999999999 := rfl

/-- `n` rounds of `mantissa *= 10`, each after the test `overflows`, on which the parse
gives up. -/
def mulTenChecked (overflows : Int → Bool) (mantissa : Int) : Nat → Option Int
  | 0 => some mantissa
  | n + 1 => if overflows mantissa then none else mulTenChecked overflows (mantissa * 10) n

/-- `ProcessMantissaDigit`: the mantissa and its count of deferred trailing zeros after the
digit `ch`. -/
def ProcessMantissaDigit (ch : Char) (mantissa : Int) (mantissa_tzeros : Nat) : Option (Int × Nat) :=
  if ch = '0' then some (mantissa, mantissa_tzeros + 1)
  else
    match mulTenChecked (fun m => decide (m > UPPER_BOUND / 10)) mantissa (mantissa_tzeros + 1) with
    | none => none
    | some mantissa => some (mantissa + ((ch.toNat : Int) - ('0'.toNat : Int)), 0)

/-- A loop `while (ptr < end && val[ptr] >= '0' && val[ptr] <= '9')` over digits of the
mantissa, each through `ProcessMantissaDigit` and, after the decimal point, counted into
`point_ofs`: the mantissa, its trailing zeros, `point_ofs` and the text after the digits. -/
def mantissaLoop (afterPoint : Bool) :
    List Char → Int → Nat → Nat → Option (Int × Nat × Nat × List Char)
  | [], mantissa, mantissa_tzeros, point_ofs => some (mantissa, mantissa_tzeros, point_ofs, [])
  | ch :: s, mantissa, mantissa_tzeros, point_ofs =>
    if ch.isDigit then
      match ProcessMantissaDigit ch mantissa mantissa_tzeros with
      | none => none
      | some (mantissa, mantissa_tzeros) =>
        mantissaLoop afterPoint s mantissa mantissa_tzeros (if afterPoint then point_ofs + 1 else point_ofs)
    else some (mantissa, mantissa_tzeros, point_ofs, ch :: s)

/-- The loop over the exponent's digits, `exponent = exponent * 10 + val[ptr] - '0'` after
the test against `UPPER_BOUND / 10`: the exponent and the text after its digits. -/
def exponentLoop : List Char → Int → Option (Int × List Char)
  | [], exponent => some (exponent, [])
  | ch :: s, exponent =>
    if ch.isDigit then
      if exponent > UPPER_BOUND / 10 then none
      else exponentLoop s (exponent * 10 + (ch.toNat : Int) - ('0'.toNat : Int))
    else some (exponent, ch :: s)

/-- The mantissa's sign: whether the text starts with `-`, and the text after it. -/
def parseSign : List Char → Bool × List Char
  | '-' :: s => (true, s)
  | s => (false, s)

/-- The whole part of the mantissa: a single `0`, or a digit from `1` to `9` and the digits
after it. -/
def parseWhole : List Char → Option (Int × Nat × Nat × List Char)
  | '0' :: s => some (0, 0, 0, s)
  | ch :: s => if '1' ≤ ch ∧ ch ≤ '9' then mantissaLoop false (ch :: s) 0 0 0 else none
  | [] => none

/-- The fraction: after a `.`, at least one digit, each counted into `point_ofs`. -/
def parseFraction (mantissa : Int) (mantissa_tzeros : Nat) :
    List Char → Option (Int × Nat × Nat × List Char)
  | '.' :: s =>
    match s with
    | ch :: _ => if ch.isDigit then mantissaLoop true s mantissa mantissa_tzeros 0 else none
    | [] => none
  | s => some (mantissa, mantissa_tzeros, 0, s)

/-- The exponent's sign after the `e`: whether it is `-`, and the text after a `+` or `-`. -/
def parseExponentSign : List Char → Bool × List Char
  | '+' :: s => (false, s)
  | '-' :: s => (true, s)
  | s => (false, s)

/-- The exponent: after an `e` or `E`, an optional sign and at least one digit. Whether it is
negative, its magnitude and the text after it. -/
def parseExponent : List Char → Option (Bool × Int × List Char)
  | ch :: s =>
    if ch = 'e' ∨ ch = 'E' then
      let (exponent_sign, s) := parseExponentSign s
      match s with
      | ch :: _ => if ch.isDigit then (exponentLoop s 0).map fun r => (exponent_sign, r) else none
      | [] => none
    else some (false, 0, ch :: s)
  | [] => some (false, 0, [])

/-- The end of `ParseFixedPoint`, once the text has been read: the exponent and the mantissa
get their signs, the decimal point and the deferred zeros move into the exponent, and the
mantissa is scaled by ten to it. -/
def finalizeFixedPoint (mantissa_sign : Bool) (mantissa : Int) (mantissa_tzeros point_ofs : Nat)
    (exponent_sign : Bool) (exponent decimals : Int) : Option Int :=
  let exponent := if exponent_sign then -exponent else exponent
  let exponent := exponent - point_ofs + mantissa_tzeros
  let mantissa := if mantissa_sign then -mantissa else mantissa
  let exponent := exponent + decimals
  -- values below `10^-decimals` and from `10^(18 - decimals)` on are not represented
  if exponent < 0 then none
  else if exponent ≥ 18 then none
  else
    match mulTenChecked (fun m => decide (m > UPPER_BOUND / 10 ∨ m < -(UPPER_BOUND / 10))) mantissa
        exponent.toNat with
    | none => none
    | some mantissa => if mantissa > UPPER_BOUND ∨ mantissa < -UPPER_BOUND then none else some mantissa

/-- `ParseFixedPoint(val, decimals, &amount_out)`: the amount it writes, and `none` where it
returns `false`. -/
def ParseFixedPoint (val : List Char) (decimals : Int) : Option Int := do
  let (mantissa_sign, s) := parseSign val
  let (mantissa, mantissa_tzeros, _, s) ← parseWhole s
  let (mantissa, mantissa_tzeros, point_ofs, s) ← parseFraction mantissa mantissa_tzeros s
  let (exponent_sign, exponent, s) ← parseExponent s
  -- trailing garbage
  if s ≠ [] then none
  else finalizeFixedPoint mantissa_sign mantissa mantissa_tzeros point_ofs exponent_sign exponent decimals

/-! ## The loops -/

/-- Scaling by ten round by round gives up exactly when the result would pass
`UPPER_BOUND`, for a test that compares the magnitude with `UPPER_BOUND / 10`. -/
theorem mulTenChecked_eq {overflows : Int → Bool} (n : Nat) : ∀ {m : Int}, (m.natAbs : Int) ≤ UPPER_BOUND →
    (∀ k : Nat, overflows (m * 10 ^ k) = decide (UPPER_BOUND / 10 < ((m * 10 ^ k).natAbs : Int))) →
    mulTenChecked overflows m n =
      if ((m * 10 ^ n).natAbs : Int) ≤ UPPER_BOUND then some (m * 10 ^ n) else none := by
  have hU := UPPER_BOUND_eq
  induction n with
  | zero =>
    intro m hm _
    rw [mulTenChecked, pow_zero, mul_one, if_pos hm]
  | succ n ih =>
    intro m hm hov
    have h0 := hov 0
    rw [pow_zero, mul_one] at h0
    have hpow : (m * 10 ^ (n + 1)).natAbs = m.natAbs * 10 ^ n * 10 := by
      rw [Int.natAbs_mul, Int.natAbs_pow, pow_succ]
      ring
    rw [mulTenChecked, h0]
    by_cases hbig : UPPER_BOUND / 10 < (m.natAbs : Int)
    · -- a magnitude from `10^17` on passes the bound at the next factor ten
      have hge : m.natAbs ≤ m.natAbs * 10 ^ n := Nat.le_mul_of_pos_right _ (Nat.pow_pos (by decide))
      rw [decide_eq_true hbig, if_pos rfl, if_neg]
      rw [hpow]
      omega
    · have hm' : ((m * 10).natAbs : Int) ≤ UPPER_BOUND := by
        rw [Int.natAbs_mul, show (10 : Int).natAbs = 10 from rfl]
        omega
      rw [decide_eq_false hbig, if_neg Bool.false_ne_true,
        ih hm' fun k => by rw [mul_assoc, ← pow_succ']; exact hov (k + 1), mul_assoc, ← pow_succ']

/-- `ch - '0'` of a digit. -/
theorem sub_zero_char {ch : Char} (h : ch.isDigit = true) :
    (ch.toNat : Int) - ('0'.toNat : Int) = (digitVal ch : Int) := by
  rw [isDigit_iff] at h
  unfold digitVal
  have h0 : ('0' : Char).toNat = 48 := rfl
  omega

/-- On a digit, `ProcessMantissaDigit` takes the step `sigStep` unless the significand passes
`UPPER_BOUND`. -/
theorem ProcessMantissaDigit_eq {ch : Char} (hch : ch.isDigit = true) {m tz : Nat}
    (hm : (m : Int) ≤ UPPER_BOUND) :
    ProcessMantissaDigit ch m tz =
      if ((sigStep (m, tz) ch).1 : Int) ≤ UPPER_BOUND then
        some (((sigStep (m, tz) ch).1 : Int), (sigStep (m, tz) ch).2)
      else none := by
  have hU := UPPER_BOUND_eq
  unfold ProcessMantissaDigit sigStep
  by_cases h0 : ch = '0'
  · rw [if_pos h0, if_pos h0, if_pos hm]
  · -- the mantissa is not negative, so the one-sided test bounds its magnitude
    have habs : ∀ k : Nat, ((m : Int) * 10 ^ k).natAbs = m * 10 ^ k := fun k => by
      rw [Int.natAbs_mul, Int.natAbs_natCast, Int.natAbs_pow]
      rfl
    have hd := digitVal_lt hch
    rw [if_neg h0, if_neg h0, mulTenChecked_eq (tz + 1) (by rw [Int.natAbs_natCast]; exact hm)
      fun k => by rw [habs k]; push_cast; rfl, habs, sub_zero_char hch]
    dsimp only
    -- `m * 10 ^ (tz + 1)` ends in a zero, so adding a digit keeps it within the bound
    have hsplit : m * 10 ^ (tz + 1) = m * 10 ^ tz * 10 := by rw [pow_succ, Nat.mul_assoc]
    by_cases hle : ((m * 10 ^ (tz + 1) : Nat) : Int) ≤ UPPER_BOUND
    · have hle' : ((m * 10 ^ (tz + 1) + digitVal ch : Nat) : Int) ≤ UPPER_BOUND := by
        rw [hsplit] at hle ⊢
        omega
      rw [if_pos hle, if_pos hle']
      push_cast
      rfl
    · have hgt : ¬((m * 10 ^ (tz + 1) + digitVal ch : Nat) : Int) ≤ UPPER_BOUND := by omega
      rw [if_neg hle, if_neg hgt]

/-- The digits at the start of `s`, and the text after them. -/
theorem head?_dropWhile_isDigit (s : List Char) : ∀ c ∈ (s.dropWhile Char.isDigit).head?, c.isDigit = false := by
  intro c hc
  have h := List.head?_dropWhile_not Char.isDigit s
  rw [Option.mem_def.mp hc] at h
  exact h

/-- A mantissa loop reads the digits `ds` up to the first character that is not one: it
gives the significand and zeros that `sigStep` computes over them, or gives up if that
significand passes `UPPER_BOUND`, which it only does once it has. -/
theorem mantissaLoop_append {ds rest : List Char} (hds : ∀ c ∈ ds, c.isDigit = true)
    (hrest : ∀ c ∈ rest.head?, c.isDigit = false) (afterPoint : Bool) :
    ∀ (m tz ofs : Nat), (m : Int) ≤ UPPER_BOUND →
      mantissaLoop afterPoint (ds ++ rest) m tz ofs =
        if ((ds.foldl sigStep (m, tz)).1 : Int) ≤ UPPER_BOUND then
          some (((ds.foldl sigStep (m, tz)).1 : Int), (ds.foldl sigStep (m, tz)).2,
            ofs + if afterPoint then ds.length else 0, rest)
        else none := by
  induction ds with
  | nil =>
    intro m tz ofs hm
    rw [List.nil_append, List.foldl_nil, if_pos hm, List.length_nil, ite_self, Nat.add_zero]
    cases rest with
    | nil => rfl
    | cons c rest => rw [mantissaLoop, if_neg (by rw [hrest c rfl]; decide)]
  | cons c ds ih =>
    intro m tz ofs hm
    have hc := hds c List.mem_cons_self
    have hds' : ∀ d ∈ ds, d.isDigit = true := fun d hd => hds d (List.mem_cons_of_mem c hd)
    rw [List.cons_append, mantissaLoop, if_pos hc, ProcessMantissaDigit_eq hc hm, List.foldl_cons]
    by_cases hstep : ((sigStep (m, tz) c).1 : Int) ≤ UPPER_BOUND
    · rw [if_pos hstep]
      dsimp only
      rw [ih hds' _ _ _ hstep, List.length_cons]
      -- after the point, the digit is counted into `point_ofs`
      cases afterPoint
      · rfl
      · simp only [if_true]
        rw [Nat.add_assoc, Nat.add_comm 1]
    · -- the significand only grows, so it stays past the bound
      have hgrow := le_foldl_sigStep ds (sigStep (m, tz) c)
      have hfin : ¬(((ds.foldl sigStep (sigStep (m, tz) c)).1 : Nat) : Int) ≤ UPPER_BOUND := by omega
      rw [if_neg hstep, if_neg hfin]

/-- The exponent's loop reads the digits `ds` as a number, or gives up if that number
passes `UPPER_BOUND`. -/
theorem exponentLoop_append {ds rest : List Char} (hds : ∀ c ∈ ds, c.isDigit = true)
    (hrest : ∀ c ∈ rest.head?, c.isDigit = false) :
    ∀ e : Nat, (e : Int) ≤ UPPER_BOUND →
      exponentLoop (ds ++ rest) e =
        if ((e * 10 ^ ds.length + digitsValue ds : Nat) : Int) ≤ UPPER_BOUND then
          some (((e * 10 ^ ds.length + digitsValue ds : Nat) : Int), rest)
        else none := by
  have hU := UPPER_BOUND_eq
  induction ds with
  | nil =>
    intro e he
    rw [List.nil_append, List.length_nil, pow_zero, Nat.mul_one, digitsValue_nil, Nat.add_zero, if_pos he]
    cases rest with
    | nil => rfl
    | cons c rest => rw [exponentLoop, if_neg (by rw [hrest c rfl]; decide)]
  | cons c ds ih =>
    intro e he
    have hc := hds c List.mem_cons_self
    have hds' : ∀ d ∈ ds, d.isDigit = true := fun d hd => hds d (List.mem_cons_of_mem c hd)
    have hd := digitVal_lt hc
    -- the number read so far, shifted by the digits still to come
    have hval : e * 10 ^ (ds.length + 1) + digitsValue (c :: ds) =
        (e * 10 + digitVal c) * 10 ^ ds.length + digitsValue ds := by
      rw [digitsValue_cons, pow_succ]
      ring
    rw [List.cons_append, exponentLoop, if_pos hc, List.length_cons, hval]
    by_cases hbig : (e : Int) > UPPER_BOUND / 10
    · have hge : e * 10 ≤ (e * 10 + digitVal c) * 10 ^ ds.length + digitsValue ds :=
        Nat.le_trans (Nat.le_add_right _ _)
          (Nat.le_trans (Nat.le_mul_of_pos_right _ (Nat.pow_pos (by decide))) (Nat.le_add_right _ _))
      rw [if_pos hbig, if_neg (by omega)]
    · rw [if_neg hbig, add_sub_assoc, sub_zero_char hc]
      have hcast : (e : Int) * 10 + (digitVal c : Int) = ((e * 10 + digitVal c : Nat) : Int) := by push_cast; rfl
      rw [hcast, ih hds' _ (by omega)]

/-! ## The phases -/

/-- The significand and zeros the whole part leaves: none for a single `0`, which the parse
passes without `ProcessMantissaDigit`. -/
def wholeSig (whole : List Char) : Nat × Nat := if whole = ['0'] then (0, 0) else whole.foldl sigStep (0, 0)

/-- A minus sign is read off; any other text is left as it is. -/
theorem parseSign_append (negative : Bool) {s : List Char} (hs : s.head? ≠ some '-') :
    parseSign ((if negative then ['-'] else []) ++ s) = (negative, s) := by
  cases negative with
  | true => rfl
  | false =>
    rw [if_neg Bool.false_ne_true, List.nil_append]
    unfold parseSign
    split
    · exact absurd rfl hs
    · rfl

theorem parseSign_spec (val : List Char) :
    val = (if (parseSign val).1 then ['-'] else []) ++ (parseSign val).2 := by
  unfold parseSign
  split <;> rfl

/-- The whole part read from its digits, when what follows is not a digit. -/
theorem parseWhole_append {whole rest : List Char} (hdig : ∀ c ∈ whole, c.isDigit = true)
    (hlead : whole = ['0'] ∨ ∃ c cs, whole = c :: cs ∧ c ≠ '0')
    (hrest : whole ≠ ['0'] → ∀ c ∈ rest.head?, c.isDigit = false) :
    parseWhole (whole ++ rest) =
      if ((wholeSig whole).1 : Int) ≤ UPPER_BOUND then
        some (((wholeSig whole).1 : Int), (wholeSig whole).2, 0, rest)
      else none := by
  rcases hlead with rfl | ⟨c, cs, rfl, hc0⟩
  · rfl
  · have hne : c :: cs ≠ ['0'] := fun h => hc0 (List.cons.inj h).1
    have hrange := isDigit_ne_zero_iff.mp ⟨hdig c List.mem_cons_self, hc0⟩
    rw [wholeSig, if_neg hne, List.cons_append]
    unfold parseWhole
    split
    · rename_i h
      exact absurd (List.cons.inj h).1 hc0
    · rename_i h
      obtain ⟨rfl, rfl⟩ := List.cons.inj h
      have hloop := mantissaLoop_append hdig (hrest hne) false 0 0 0 (by decide)
      rw [Nat.cast_zero] at hloop
      rw [if_pos hrange, ← List.cons_append, hloop]
      rfl
    · rename_i h
      cases h

/-- What a successful read of the whole part consumed: a well-formed whole part, whose
significand and zeros it gives. -/
theorem parseWhole_eq_some {s rest : List Char} {m : Int} {tz ofs : Nat}
    (h : parseWhole s = some (m, tz, ofs, rest)) :
    ∃ whole, s = whole ++ rest ∧ (∀ c ∈ whole, c.isDigit = true) ∧
      (whole = ['0'] ∨ ∃ c cs, whole = c :: cs ∧ c ≠ '0') ∧
      ((wholeSig whole).1 : Int) ≤ UPPER_BOUND ∧ m = (wholeSig whole).1 ∧ tz = (wholeSig whole).2 ∧ ofs = 0 := by
  cases s with
  | nil => cases h
  | cons c s =>
    by_cases hc0 : c = '0'
    · -- a single zero, whatever follows it
      subst hc0
      obtain ⟨rfl, rfl, rfl, rfl⟩ : (0, 0, 0, s) = (m, tz, ofs, rest) := Option.some.inj h
      exact ⟨['0'], rfl, List.forall_mem_singleton.mpr rfl, Or.inl rfl, by decide, rfl, rfl, rfl⟩
    · -- a digit from `1` to `9`, then all the digits after it
      have hrange : '1' ≤ c ∧ c ≤ '9' := by
        unfold parseWhole at h
        split at h
        · next h' => exact absurd (List.cons.inj h').1 hc0
        · next h' =>
          obtain ⟨rfl, rfl⟩ := List.cons.inj h'
          by_contra hr
          rw [if_neg hr] at h
          cases h
        · next h' => cases h'
      have hc := (isDigit_ne_zero_iff.mpr hrange).1
      have hdig : ∀ d ∈ (c :: s).takeWhile Char.isDigit, d.isDigit = true := fun d hd => List.mem_takeWhile_imp hd
      have hlead : (c :: s).takeWhile Char.isDigit = c :: s.takeWhile Char.isDigit := by
        rw [List.takeWhile_cons_of_pos hc]
      rw [← List.takeWhile_append_dropWhile (p := Char.isDigit) (l := c :: s),
        parseWhole_append hdig (Or.inr ⟨c, _, hlead, hc0⟩) fun _ => head?_dropWhile_isDigit _] at h
      obtain ⟨hle, heq⟩ := Option.ite_none_right_eq_some.mp h
      obtain ⟨rfl, rfl, rfl, rfl⟩ := Option.some.inj heq
      exact ⟨_, List.takeWhile_append_dropWhile.symm, hdig, Or.inr ⟨c, _, hlead, hc0⟩, hle, rfl, rfl, rfl⟩

/-- The fraction read from its digits: after a point, up to the first character that is not a
digit; with no digits, the text must not start with a point. -/
theorem parseFraction_append {frac rest : List Char} (hdig : ∀ c ∈ frac, c.isDigit = true)
    (hrest : ∀ c ∈ rest.head?, (frac ≠ [] → c.isDigit = false) ∧ (frac = [] → c ≠ '.')) {m tz : Nat}
    (hm : (m : Int) ≤ UPPER_BOUND) :
    parseFraction m tz (fractionChars frac ++ rest) =
      if ((frac.foldl sigStep (m, tz)).1 : Int) ≤ UPPER_BOUND then
        some (((frac.foldl sigStep (m, tz)).1 : Int), (frac.foldl sigStep (m, tz)).2, frac.length, rest)
      else none := by
  cases frac with
  | nil =>
    -- no point: the text is passed on
    rw [fractionChars, if_pos rfl, List.nil_append, List.foldl_nil, if_pos hm, List.length_nil]
    unfold parseFraction
    split
    · exact absurd rfl ((hrest '.' rfl).2 rfl)
    · rfl
  | cons c frac =>
    have hc := hdig c List.mem_cons_self
    rw [fractionChars, if_neg (List.cons_ne_nil c frac), List.cons_append, List.cons_append, parseFraction.eq_1,
      if_pos hc, ← List.cons_append,
      mantissaLoop_append hdig (fun d hd => (hrest d hd).1 (List.cons_ne_nil c frac)) true m tz 0 hm,
      Nat.zero_add, if_pos rfl]

/-- What a successful read of the fraction consumed: a point and digits, or nothing, and the
significand and zeros after them. -/
theorem parseFraction_eq_some {s rest : List Char} {m tz : Nat} {m' : Int} {tz' ofs : Nat}
    (hm : (m : Int) ≤ UPPER_BOUND) (h : parseFraction m tz s = some (m', tz', ofs, rest)) :
    ∃ frac, s = fractionChars frac ++ rest ∧ (∀ c ∈ frac, c.isDigit = true) ∧
      ((frac.foldl sigStep (m, tz)).1 : Int) ≤ UPPER_BOUND ∧ m' = (frac.foldl sigStep (m, tz)).1 ∧
      tz' = (frac.foldl sigStep (m, tz)).2 ∧ ofs = frac.length := by
  -- the fraction is the digits after a point, or nothing
  obtain ⟨frac, rest', hs, hdig, hrest⟩ : ∃ frac rest', s = fractionChars frac ++ rest' ∧
      (∀ c ∈ frac, c.isDigit = true) ∧ ∀ c ∈ rest'.head?, (frac ≠ [] → c.isDigit = false) ∧ (frac = [] → c ≠ '.') := by
    rcases s with _ | ⟨c, s⟩
    · exact ⟨[], [], rfl, nofun, nofun⟩
    by_cases hdot : c = '.'
    · subst hdot
      rcases s with _ | ⟨c, s⟩
      · simp [parseFraction] at h
      rw [parseFraction.eq_1] at h
      by_cases hc : c.isDigit = true
      · have hne : (c :: s).takeWhile Char.isDigit ≠ [] := by
          rw [List.takeWhile_cons_of_pos hc]
          exact List.cons_ne_nil _ _
        refine ⟨(c :: s).takeWhile Char.isDigit, (c :: s).dropWhile Char.isDigit, ?_,
          fun d hd => List.mem_takeWhile_imp hd,
          fun d hd => ⟨fun _ => head?_dropWhile_isDigit _ d hd, fun h => absurd h hne⟩⟩
        rw [fractionChars, if_neg hne, List.cons_append, List.takeWhile_append_dropWhile]
      · rw [if_neg hc] at h
        cases h
    · refine ⟨[], c :: s, rfl, nofun, fun d hd => ⟨fun h => absurd rfl h, fun _ => ?_⟩⟩
      rw [Option.mem_def, List.head?_cons, Option.some.injEq] at hd
      rw [← hd]
      exact hdot
  rw [hs, parseFraction_append hdig hrest hm] at h
  obtain ⟨hle, heq⟩ := Option.ite_none_right_eq_some.mp h
  obtain ⟨rfl, rfl, rfl, rfl⟩ := Option.some.inj heq
  exact ⟨frac, hs, hdig, hle, rfl, rfl, rfl⟩

/-- The sign after the `e` is read off, before digits. -/
theorem parseExponentSign_append (sign : ExpSign) {ds : List Char} (hds : ∀ c ∈ ds.head?, c.isDigit = true) :
    parseExponentSign (sign.chars ++ ds) = (decide (sign = .minus), ds) := by
  cases sign with
  | none =>
    rw [ExpSign.chars, List.nil_append]
    unfold parseExponentSign
    split
    · exact absurd (hds '+' rfl) (by decide)
    · exact absurd (hds '-' rfl) (by decide)
    · rfl
  | plus => rfl
  | minus => rfl

theorem parseExponentSign_spec (s : List Char) :
    ∃ sign : ExpSign, s = sign.chars ++ (parseExponentSign s).2 ∧
      (parseExponentSign s).1 = decide (sign = .minus) := by
  unfold parseExponentSign
  split
  · exact ⟨.plus, rfl, rfl⟩
  · exact ⟨.minus, rfl, rfl⟩
  · exact ⟨.none, rfl, rfl⟩

/-- A signed exponent is the exponent its part denotes. -/
theorem exponentValue_some (e : ExpPart) :
    (if decide (e.sign = .minus) then -(digitsValue e.digits : Int) else (digitsValue e.digits : Int)) =
      exponentValue (some e) := by
  rw [exponentValue, ExpPart.value]
  by_cases hs : e.sign = .minus
  · rw [if_pos (decide_eq_true hs), if_pos hs]
  · rw [if_neg (by simpa using hs), if_neg hs]

/-- An exponent part, or none, is read back when its digits are within `UPPER_BOUND`. -/
theorem parseExponent_chars {ex : Option ExpPart} (hX : ∀ e ∈ ex, (digitsValue e.digits : Int) ≤ UPPER_BOUND) :
    ∃ esgn X, parseExponent (exponentChars ex) = some (esgn, X, []) ∧ (if esgn then -X else X) = exponentValue ex := by
  cases ex with
  | none => exact ⟨false, 0, rfl, rfl⟩
  | some e =>
    obtain ⟨c, cs, hcs⟩ := List.exists_cons_of_ne_nil e.digits_ne
    have hc := e.digits_wf c (by rw [hcs]; exact List.mem_cons_self)
    have hloop := @exponentLoop_append e.digits [] e.digits_wf nofun 0 (by decide)
    rw [List.append_nil, Nat.zero_mul, Nat.zero_add, Nat.cast_zero, if_pos (hX e rfl)] at hloop
    refine ⟨decide (e.sign = .minus), digitsValue e.digits, ?_, exponentValue_some e⟩
    rw [exponentChars, ExpPart.chars, List.cons_append, parseExponent.eq_1, if_pos e.marker_wf,
      parseExponentSign_append e.sign (by rw [hcs]; exact fun d hd => by cases hd; exact hc)]
    dsimp only
    rw [hcs]
    dsimp only
    rw [if_pos hc, ← hcs, hloop]
    rfl

/-- What a successful read of the exponent consumed: an exponent part or nothing, and the
signed exponent it denotes. -/
theorem parseExponent_eq_some {s rest : List Char} {esgn : Bool} {X : Int}
    (h : parseExponent s = some (esgn, X, rest)) :
    ∃ ex, s = exponentChars ex ++ rest ∧ (if esgn then -X else X) = exponentValue ex := by
  rcases s with _ | ⟨c, s⟩
  · obtain ⟨rfl, rfl, rfl⟩ : (false, (0 : Int), ([] : List Char)) = (esgn, X, rest) := Option.some.inj h
    exact ⟨none, rfl, rfl⟩
  by_cases hmarker : c = 'e' ∨ c = 'E'
  · rw [parseExponent.eq_1, if_pos hmarker] at h
    obtain ⟨sign, hsplit, hsgn⟩ := parseExponentSign_spec s
    generalize parseExponentSign s = ps at h hsplit hsgn
    obtain ⟨b, s'⟩ := ps
    dsimp only at h hsplit hsgn
    -- at least one digit follows the sign
    rcases s' with _ | ⟨d, s'⟩
    · cases h
    dsimp only at h
    by_cases hd : d.isDigit = true
    · have hne : (d :: s').takeWhile Char.isDigit ≠ [] := by
        rw [List.takeWhile_cons_of_pos hd]
        exact List.cons_ne_nil _ _
      have hdig : ∀ x ∈ (d :: s').takeWhile Char.isDigit, x.isDigit = true := fun x hx => List.mem_takeWhile_imp hx
      have hloop := exponentLoop_append hdig (head?_dropWhile_isDigit (d :: s')) 0 (by decide)
      rw [Nat.cast_zero, Nat.zero_mul, Nat.zero_add] at hloop
      rw [if_pos hd, ← List.takeWhile_append_dropWhile (p := Char.isDigit) (l := d :: s'), hloop] at h
      split_ifs at h with hle
      · simp only [Option.map_some, Option.some.injEq, Prod.mk.injEq] at h
        obtain ⟨rfl, rfl, rfl⟩ := h
        let e : ExpPart := ⟨c, sign, (d :: s').takeWhile Char.isDigit, hmarker, hne, hdig⟩
        refine ⟨some e, ?_, ?_⟩
        · show c :: s = c :: (sign.chars ++ (d :: s').takeWhile Char.isDigit) ++ (d :: s').dropWhile Char.isDigit
          rw [List.cons_append, List.append_assoc, List.takeWhile_append_dropWhile, ← hsplit]
        · rw [← exponentValue_some e, hsgn]
      · simp at h
    · rw [if_neg hd] at h
      cases h
  · rw [parseExponent.eq_1, if_neg hmarker] at h
    obtain ⟨rfl, rfl, rfl⟩ : (false, (0 : Int), c :: s) = (esgn, X, rest) := Option.some.inj h
    exact ⟨none, rfl, rfl⟩

/-- The final scaling of a signed mantissa `σ * M` gives up exactly when the result would pass
`UPPER_BOUND`. -/
theorem mulTenChecked_signed {σ : Int} (hσ : σ = 1 ∨ σ = -1) {M : Nat} (hM : (M : Int) ≤ UPPER_BOUND) (n : Nat) :
    mulTenChecked (fun m => decide (m > UPPER_BOUND / 10 ∨ m < -(UPPER_BOUND / 10))) (σ * M) n =
      if ((M * 10 ^ n : Nat) : Int) ≤ UPPER_BOUND then some (σ * ((M * 10 ^ n : Nat) : Int)) else none := by
  have habs : ∀ k : Nat, (σ * M * 10 ^ k).natAbs = M * 10 ^ k := fun k => by
    rcases hσ with rfl | rfl <;> simp [Int.natAbs_mul, Int.natAbs_pow]
  have hguard : ∀ x : Int,
      decide (x > UPPER_BOUND / 10 ∨ x < -(UPPER_BOUND / 10)) = decide (UPPER_BOUND / 10 < (x.natAbs : Int)) :=
    fun x => decide_eq_decide.mpr (by omega)
  have h0 := habs 0
  simp only [pow_zero, mul_one] at h0
  rw [mulTenChecked_eq n (by rw [h0]; exact hM) (fun k => hguard _), habs n]
  push_cast
  rw [mul_assoc]

/-- Once the text is read, the result is the mantissa scaled by ten to the final exponent
`E`, when `E` is from `0` to `17` and the result within `UPPER_BOUND`. -/
theorem finalizeFixedPoint_eq (mantissa_sign : Bool) {M : Nat} (hM : (M : Int) ≤ UPPER_BOUND)
    (tz ofs : Nat) (exponent_sign : Bool) (X d : Int) {E : Int}
    (hE : (if exponent_sign then -X else X) - ofs + tz + d = E) :
    finalizeFixedPoint mantissa_sign M tz ofs exponent_sign X d =
      if 0 ≤ E ∧ E < 18 ∧ ((M * 10 ^ E.toNat : Nat) : Int) ≤ UPPER_BOUND then
        some ((if mantissa_sign then -1 else 1) * ((M * 10 ^ E.toNat : Nat) : Int))
      else none := by
  have hσ : (if mantissa_sign then (-1 : Int) else 1) = 1 ∨ (if mantissa_sign then (-1 : Int) else 1) = -1 := by
    cases mantissa_sign <;> simp
  have hsigned : (if mantissa_sign then -(M : Int) else M) = (if mantissa_sign then -1 else 1) * M := by
    cases mantissa_sign <;> simp
  unfold finalizeFixedPoint
  dsimp only
  rw [hE, hsigned]
  by_cases hlo : E < 0
  · have hcond : ¬(0 ≤ E ∧ E < 18 ∧ ((M * 10 ^ E.toNat : Nat) : Int) ≤ UPPER_BOUND) := fun h => by omega
    rw [if_pos hlo, if_neg hcond]
  by_cases hhi : E ≥ 18
  · have hcond : ¬(0 ≤ E ∧ E < 18 ∧ ((M * 10 ^ E.toNat : Nat) : Int) ≤ UPPER_BOUND) := fun h => by omega
    rw [if_neg hlo, if_pos hhi, if_neg hcond]
  rw [if_neg hlo, if_neg hhi, mulTenChecked_signed hσ hM]
  by_cases hle : ((M * 10 ^ E.toNat : Nat) : Int) ≤ UPPER_BOUND
  · -- the scaled mantissa is within the bound on both sides
    have hin : ¬((if mantissa_sign then (-1 : Int) else 1) * ((M * 10 ^ E.toNat : Nat) : Int) > UPPER_BOUND ∨
        (if mantissa_sign then (-1 : Int) else 1) * ((M * 10 ^ E.toNat : Nat) : Int) < -UPPER_BOUND) := by
      rcases hσ with hσ | hσ <;> rw [hσ] <;> omega
    have hcond : 0 ≤ E ∧ E < 18 ∧ ((M * 10 ^ E.toNat : Nat) : Int) ≤ UPPER_BOUND := ⟨by omega, by omega, hle⟩
    rw [if_pos hle, if_pos hcond]
    dsimp only
    rw [if_neg hin]
  · have hcond : ¬(0 ≤ E ∧ E < 18 ∧ ((M * 10 ^ E.toNat : Nat) : Int) ≤ UPPER_BOUND) := fun h => hle h.2.2
    rw [if_neg hle, if_neg hcond]

/-- The significand and zeros that the two mantissa loops compute, before their overflow
tests. -/
def mantissaOf (whole fraction : List Char) : Nat × Nat := fraction.foldl sigStep (wholeSig whole)

theorem wholeSig_value (whole : List Char) : (wholeSig whole).1 * 10 ^ (wholeSig whole).2 = digitsValue whole := by
  unfold wholeSig
  split
  · next h =>
    rw [h]
    rfl
  · rw [foldl_sigStep_value]
    simp

/-- The significand and zeros denote the mantissa's digits. -/
theorem mantissaOf_value (whole fraction : List Char) :
    (mantissaOf whole fraction).1 * 10 ^ (mantissaOf whole fraction).2 = digitsValue (whole ++ fraction) := by
  rw [mantissaOf, foldl_sigStep_value, wholeSig_value, digitsValue_append]

/-- The significand ends in a non-zero digit unless it is zero. -/
theorem mantissaOf_last {whole fraction : List Char} (hw : ∀ c ∈ whole, c.isDigit = true)
    (hf : ∀ c ∈ fraction, c.isDigit = true) :
    (mantissaOf whole fraction).1 = 0 ∨ (mantissaOf whole fraction).1 % 10 ≠ 0 := by
  refine foldl_sigStep_mod hf _ ?_
  unfold wholeSig
  split
  · exact Or.inl rfl
  · exact foldl_sigStep_mod hw _ (Or.inl rfl)

/-- At most every digit is a deferred zero. -/
theorem mantissaOf_zeros_le (whole fraction : List Char) :
    (mantissaOf whole fraction).2 ≤ whole.length + fraction.length := by
  have hw : (wholeSig whole).2 ≤ whole.length := by
    unfold wholeSig
    split
    · exact Nat.zero_le _
    · have := foldl_sigStep_snd_le whole (0, 0)
      simpa using this
  have := foldl_sigStep_snd_le fraction (wholeSig whole)
  rw [mantissaOf]
  omega

/-- The whole part's significand is at most the mantissa's. -/
theorem wholeSig_le_mantissaOf (whole fraction : List Char) : (wholeSig whole).1 ≤ (mantissaOf whole fraction).1 :=
  le_foldl_sigStep fraction (wholeSig whole)

/-- A signed significand scaled by a natural power of ten, in `ℚ`. -/
theorem intCast_signed_scaled (negative : Bool) (M : Nat) {E : Int} (hE : 0 ≤ E) :
    (((if negative then -1 else 1) * ((M * 10 ^ E.toNat : Nat) : Int) : Int) : ℚ) =
      (if negative then -1 else 1) * (M : ℚ) * 10 ^ E := by
  have hpow : (10 : ℚ) ^ E = (10 : ℚ) ^ E.toNat := by
    rw [← zpow_natCast, Int.toNat_of_nonneg hE]
  rw [hpow]
  cases negative <;> push_cast <;> ring

/-! ## What `ParseFixedPoint` accepts -/

/-- Whatever `ParseFixedPoint` accepts is a literal, and what it writes is the literal's value
in units of `10^-decimals`, an integer within `UPPER_BOUND`. -/
theorem ParseFixedPoint_eq_some {val : List Char} {d out : Int} (h : ParseFixedPoint val d = some out) :
    ∃ lit : Literal, lit.render = val ∧ (out : ℚ) = lit.value * 10 ^ d ∧ (out.natAbs : Int) ≤ UPPER_BOUND := by
  unfold ParseFixedPoint at h
  have hsign := parseSign_spec val
  generalize parseSign val = ps at h hsign
  obtain ⟨negative, s⟩ := ps
  dsimp only at h hsign
  -- the phases, one after the other
  obtain ⟨⟨m, tz, ofs, s1⟩, h1, h⟩ := Option.bind_eq_some_iff.mp h
  obtain ⟨whole, hs, hwd, hwl, hwle, rfl, rfl, rfl⟩ := parseWhole_eq_some h1
  dsimp only at h
  obtain ⟨⟨m', tz', ofs', s2⟩, h2, h⟩ := Option.bind_eq_some_iff.mp h
  obtain ⟨frac, hs1, hfd, hfle, rfl, rfl, rfl⟩ := parseFraction_eq_some hwle h2
  dsimp only at h
  obtain ⟨⟨esgn, X, s3⟩, h3, h⟩ := Option.bind_eq_some_iff.mp h
  obtain ⟨ex, hs2, hX⟩ := parseExponent_eq_some h3
  dsimp only at h
  -- nothing may follow the literal
  by_cases hs3 : s3 = []
  swap
  · rw [if_pos hs3] at h
    cases h
  subst hs3
  rw [if_neg (not_not.mpr rfl), finalizeFixedPoint_eq negative hfle _ _ esgn X d rfl] at h
  obtain ⟨⟨hE0, -, hEle⟩, heq⟩ := Option.ite_none_right_eq_some.mp h
  obtain rfl := Option.some.inj heq
  let lit : Literal := ⟨negative, whole, frac, ex, hwd, hwl, hfd⟩
  refine ⟨lit, ?_, ?_, ?_⟩
  · show (if negative then ['-'] else []) ++ whole ++ fractionChars frac ++ exponentChars ex = val
    rw [hsign, hs, hs1, hs2, List.append_nil, List.append_assoc, List.append_assoc]
  · -- the value of the literal is the significand scaled by the final exponent
    rw [Literal.value_mul_zpow lit (mantissaOf_value whole frac) d, intCast_signed_scaled negative _ hE0, hX]
    rfl
  · cases negative <;> simp only [if_true, if_false, Bool.false_eq_true, one_mul, neg_one_mul, Int.natAbs_neg,
      Int.natAbs_natCast] <;> exact hEle

/-- The characters of a literal include all its digits. -/
theorem length_digits_le_render (lit : Literal) : lit.whole.length + lit.fraction.length ≤ lit.render.length := by
  have hf : lit.fraction.length ≤ (fractionChars lit.fraction).length := by
    unfold fractionChars
    split
    · next h => rw [h]
    · exact Nat.le_succ _
  simp only [Literal.render, List.length_append]
  omega

/-- `ParseFixedPoint` accepts every literal shorter than `2^31` whose value in units of
`10^-decimals`, for decimals from `0` to `17`, is a non-zero integer within `UPPER_BOUND`, and
writes that integer. -/
theorem ParseFixedPoint_render {lit : Literal} {d v : Int} (hlen : lit.render.length < 2 ^ 31)
    (hd0 : 0 ≤ d) (hd : d ≤ 17) (hv : (v : ℚ) = lit.value * 10 ^ d) (hne : v ≠ 0)
    (hle : (v.natAbs : Int) ≤ UPPER_BOUND) : ParseFixedPoint lit.render d = some v := by
  have hU := UPPER_BOUND_eq
  have hdigits := length_digits_le_render lit
  obtain ⟨negative, whole, frac, ex, hwd, hwl, hfd⟩ := lit
  dsimp only at hlen hdigits
  have hzeros := mantissaOf_zeros_le whole frac
  rw [Literal.value_mul_zpow _ (mantissaOf_value whole frac) d] at hv
  dsimp only at hv
  -- the significand is not zero, so it ends in a non-zero digit
  have hM0 : (mantissaOf whole frac).1 ≠ 0 := by
    intro h0
    rw [h0, Nat.cast_zero, mul_zero, zero_mul] at hv
    exact hne (Int.cast_eq_zero.mp hv)
  have hmod := (mantissaOf_last hwd hfd).resolve_left hM0
  -- an integer value leaves a natural exponent
  have hE0 : 0 ≤ exponentValue ex - frac.length + (mantissaOf whole frac).2 + d := by
    refine exponent_nonneg_of_intCast_eq hmod (v := if negative then -v else v) ?_
    have hcast : (((if negative then -v else v) : Int) : ℚ) = (if negative then -1 else 1) * (v : ℚ) := by
      cases negative <;> simp
    rw [hcast, hv]
    cases negative <;> norm_num
  have hint := intCast_signed_scaled negative (mantissaOf whole frac).1 hE0
  rw [← hv] at hint
  have hvint := Int.cast_inj.mp hint
  set E := exponentValue ex - frac.length + (mantissaOf whole frac).2 + d with hE
  -- the scaled significand is `|v|`
  have hmag : (v.natAbs : Int) = (((mantissaOf whole frac).1 * 10 ^ E.toNat : Nat) : Int) := by
    rw [← hvint]
    cases negative <;> simp
  have hpos : 1 ≤ 10 ^ E.toNat := Nat.one_le_pow _ _ (by decide)
  have hMle : (mantissaOf whole frac).1 ≤ (mantissaOf whole frac).1 * 10 ^ E.toNat := Nat.le_mul_of_pos_right _ hpos
  have hPle : 10 ^ E.toNat ≤ (mantissaOf whole frac).1 * 10 ^ E.toNat := Nat.le_mul_of_pos_left _ (by omega)
  have hE18 : E < 18 := by
    by_contra hbig
    have h18 : 10 ^ 18 ≤ 10 ^ E.toNat := Nat.pow_le_pow_right (by decide) (by omega)
    omega
  -- the exponent's digits are within the bound, since the text is short
  have hX : ∀ e ∈ ex, (digitsValue e.digits : Int) ≤ UPPER_BOUND := by
    intro e he
    rw [Option.mem_def] at he
    subst he
    have hval : exponentValue (some e) = if e.sign = .minus then -(digitsValue e.digits : Int) else digitsValue e.digits := rfl
    split at hval <;> omega
  obtain ⟨esgn, X, hexp, hXval⟩ := parseExponent_chars hX
  -- now the text is read phase by phase
  have hW := wholeSig_le_mantissaOf whole frac
  have hwhead : (whole ++ (fractionChars frac ++ exponentChars ex)).head? ≠ some '-' := by
    rcases hwl with rfl | ⟨c, cs, rfl, -⟩
    · exact fun h => absurd (Option.some.inj h) (by decide)
    · intro h
      rw [List.cons_append, List.head?_cons, Option.some.injEq] at h
      have hc := hwd c List.mem_cons_self
      rw [h] at hc
      exact absurd hc (by decide)
  have hexphead : ∀ c ∈ (exponentChars ex).head?, c.isDigit = false ∧ c ≠ '.' := by
    intro c hc
    cases ex with
    | none => cases hc
    | some e =>
      rw [exponentChars, ExpPart.chars, List.cons_append, List.head?_cons, Option.mem_def, Option.some.injEq] at hc
      subst hc
      rcases e.marker_wf with h | h <;> rw [h] <;> decide
  have hfrachead : ∀ c ∈ (fractionChars frac ++ exponentChars ex).head?, c.isDigit = false := by
    intro c hc
    unfold fractionChars at hc
    split at hc
    · exact (hexphead c hc).1
    · rw [List.cons_append, List.head?_cons, Option.mem_def, Option.some.injEq] at hc
      rw [← hc]
      decide
  unfold ParseFixedPoint Literal.render
  dsimp only
  rw [List.append_assoc, List.append_assoc, parseSign_append negative hwhead]
  dsimp only
  rw [parseWhole_append hwd hwl fun _ => hfrachead, if_pos (by omega), Option.bind_eq_bind, Option.bind_some]
  dsimp only
  rw [parseFraction_append hfd (fun c hc => ⟨fun _ => (hexphead c hc).1, fun _ => (hexphead c hc).2⟩) (by omega),
    show frac.foldl sigStep ((wholeSig whole).1, (wholeSig whole).2) = mantissaOf whole frac from rfl,
    if_pos (by omega), Option.bind_some]
  dsimp only
  rw [hexp, Option.bind_eq_bind, Option.bind_some]
  dsimp only
  rw [if_neg (not_not.mpr rfl), finalizeFixedPoint_eq negative (by omega) _ _ esgn X d (E := E) (by rw [hXval, hE]),
    if_pos ⟨hE0, hE18, by omega⟩, ← hvint]

end BitcoinPQ

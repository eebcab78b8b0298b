import Mathlib.Data.List.GetD
import BitcoinPQ.Models.Encoding.FixedPoint
import BitcoinPQ.Models.Encoding.Base58

/-!
# Amounts as text

How amounts are written and read as decimal text. `ValueFromAmount` of `core_write.cpp`
writes the JSON number `%s%d.%08d` of an amount, and `AmountFromValue` of `rpc/server.cpp`
reads a number or a string back through `ParseFixedPoint` with eight decimals. The older
pair `FormatMoney` and `ParseMoney` of `utilmoneystr.cpp` trims the zeros after the second
decimal and reads at most eight decimals.

Amounts are `Int`: on every amount the functions below are applied to, their `int64_t`
arithmetic stays in range, and `n_abs` is the magnitude also for the least `int64_t`,
whose negation the source would overflow. A `UniValue` is its type and the text of a
number or string, all that `AmountFromValue` reads of it.
-/

namespace BitcoinPQ

open Decimal

/-- `UniValue::VType`. -/
inductive VType
  | VNULL
  | VOBJ
  | VARR
  | VSTR
  | VNUM
  | VBOOL
  deriving DecidableEq, Repr

/-- A `UniValue` by its type and the text `val` of a number or a string. -/
structure UniValue where
  typ : VType
  val : List Char
  deriving DecidableEq, Repr

/-- `UniValue::isNum`. -/
def UniValue.isNum (v : UniValue) : Bool := v.typ == .VNUM

/-- `UniValue::isStr`. -/
def UniValue.isStr (v : UniValue) : Bool := v.typ == .VSTR

/-- `UniValue::getValStr`. -/
def UniValue.getValStr (v : UniValue) : List Char := v.val

/-- The object `JSONRPCError(code, message)` that an RPC handler throws. -/
structure JSONRPCError where
  code : Int
  message : String
  deriving DecidableEq, Repr

/-- `RPC_TYPE_ERROR`: an unexpected type was passed as a parameter. -/
def RPC_TYPE_ERROR : Int := -3

/-- `CENT`. -/
def CENT : Int := 1000000

/-! ## Writing -/

/-- `%d` of a non-negative number: its decimal digits. -/
def formatDecimal (n : Nat) : List Char := Nat.toDigits 10 n

/-- `%08d` of a non-negative number: its decimal digits after zeros, to eight characters. -/
def formatDecimal08 (n : Nat) : List Char :=
  List.replicate (8 - (Nat.toDigits 10 n).length) '0' ++ Nat.toDigits 10 n

/-- `ValueFromAmount`: the JSON number `%s%d.%08d` of the sign, the whole coins and the
units left. -/
def ValueFromAmount (amount : Int) : UniValue :=
  let sign := decide (amount < 0)
  let n_abs := amount.natAbs
  let quotient := n_abs / COIN.toNat
  let remainder := n_abs % COIN.toNat
  ⟨.VNUM, (if sign then ['-'] else []) ++ formatDecimal quotient ++ '.' :: formatDecimal08 remainder⟩

/-- The loop of `FormatMoney` that counts the zeros to trim, from index `i` down: a `0` whose
character two places before is a digit. It stops at the second decimal, two places after
the point, so it never reaches the first two characters. -/
def trimCount (str : List Char) : Nat → Nat
  | i + 2 => if str.getD (i + 2) ' ' = '0' ∧ (str.getD i ' ').isDigit then trimCount str (i + 1) + 1 else 0
  | _ => 0

/-- `FormatMoney`: `%d.%08d` of the whole coins and the units left, with the zeros after the
second decimal trimmed, after a `-` for a negative amount. -/
def FormatMoney (n : Int) : List Char :=
  let n_abs := n.natAbs
  let quotient := n_abs / COIN.toNat
  let remainder := n_abs % COIN.toNat
  let str := formatDecimal quotient ++ '.' :: formatDecimal08 remainder
  let nTrim := trimCount str (str.length - 1)
  let str := if nTrim ≠ 0 then str.take (str.length - nTrim) else str
  if n < 0 then '-' :: str else str

/-! ## Reading -/

/-- `AmountFromValue`: a number or a string read by `ParseFixedPoint` with eight decimals,
which must be in `MoneyRange`. -/
def AmountFromValue (value : UniValue) : Except JSONRPCError Int :=
  if !value.isNum && !value.isStr then throw ⟨RPC_TYPE_ERROR, "Amount is not a number or string"⟩
  else
    match ParseFixedPoint value.getValStr 8 with
    | none => throw ⟨RPC_TYPE_ERROR, "Invalid amount"⟩
    | some amount =>
      if !MoneyRange amount then throw ⟨RPC_TYPE_ERROR, "Amount out of range"⟩
      else pure amount

/-- The decimals in `ParseMoney`: each digit adds `nMult` times its value to `nUnits`, while
`nMult` goes from `CENT * 10` down by factors of ten and is positive. -/
def unitsLoop : List Char → Int → Int → Int × List Char
  | c :: p, nMult, nUnits =>
    if c.isDigit ∧ nMult > 0 then unitsLoop p (nMult / 10) (nUnits + nMult * ((c.toNat : Int) - ('0'.toNat : Int)))
    else (nUnits, c :: p)
  | [], _, nUnits => (nUnits, [])

/-- The main loop of `ParseMoney`: the digits of the whole coins into `strWhole`, up to a
point, whose decimals go through `unitsLoop`, a space or the end; `none` at any other
character. -/
def parseMoneyLoop : List Char → List Char → Option (List Char × Int × List Char)
  | strWhole, [] => some (strWhole, 0, [])
  | strWhole, c :: p =>
    if c = '.' then
      let (nUnits, p) := unitsLoop p (CENT * 10) 0
      some (strWhole, nUnits, p)
    else if isspace c then some (strWhole, 0, c :: p)
    else if !c.isDigit then none
    else parseMoneyLoop (strWhole ++ [c]) p

/-- `atoi64`: `strtoll` in base ten, after white space and an optional sign, clamped to the
range of `int64_t`. -/
def atoi64 (str : List Char) : Int :=
  let s := str.dropWhile isspace
  let (negative, s) : Bool × List Char :=
    match s with
    | '-' :: s => (true, s)
    | '+' :: s => (false, s)
    | s => (false, s)
  let v : Int := digitsValue (s.takeWhile Char.isDigit)
  max (-2 ^ 63) (min (2 ^ 63 - 1) (if negative then -v else v))

/-- `ParseMoney(const char*, CAmount&)`: white space, the whole coins, at most eight
decimals and white space. -/
def ParseMoneyPsz (pszIn : List Char) : Option Int := do
  let p := pszIn.dropWhile isspace
  let (strWhole, nUnits, p) ← parseMoneyLoop [] p
  if !p.all isspace then none
  -- guard against 63 bit overflow
  else if strWhole.length > 10 then none
  else if nUnits < 0 ∨ nUnits > COIN then none
  else
    let nWhole := atoi64 strWhole
    some (nWhole * COIN + nUnits)

/-- `ParseMoney(const std::string&, CAmount&)`, on the C string, which ends at the first NUL. -/
def ParseMoney (str : List Char) : Option Int := ParseMoneyPsz (str.takeWhile fun c => c != '\x00')

/-! ## Decimal text of numbers -/

theorem formatDecimal_digits (n : Nat) : ∀ c ∈ formatDecimal n, c.isDigit = true :=
  fun _ hc => Nat.isDigit_of_mem_toDigits (by decide) (by decide) hc

theorem length_formatDecimal_le {n : Nat} (h : n < 10 ^ 8) : (formatDecimal n).length ≤ 8 :=
  Nat.toDigits_length 10 n 8 (by decide) h

theorem formatDecimal08_digits (n : Nat) : ∀ c ∈ formatDecimal08 n, c.isDigit = true := by
  intro c hc
  rcases List.mem_append.mp hc with hz | hd
  · rw [List.eq_of_mem_replicate hz]
    rfl
  · exact formatDecimal_digits n c hd

theorem length_formatDecimal08 {n : Nat} (h : n < 10 ^ 8) : (formatDecimal08 n).length = 8 := by
  have hle := length_formatDecimal_le h
  rw [formatDecimal08, List.length_append, List.length_replicate]
  unfold formatDecimal at hle
  omega

/-- Padding with zeros keeps the value. -/
theorem digitsValue_formatDecimal08 (n : Nat) : digitsValue (formatDecimal08 n) = n := by
  rw [formatDecimal08, digitsValue_append, digitsValue_replicate_zero, Nat.zero_mul, Nat.zero_add,
    digitsValue_toDigits]

/-- Every character of the decimal text of an amount is printable: no white space and no NUL. -/
theorem printable_of_digit_or_point {c : Char} (h : c.isDigit = true ∨ c = '.') :
    isspace c = false ∧ c ≠ Char.ofNat 0 := by
  apply isspace_of_le
  rcases h with h | rfl
  · rw [isDigit_iff] at h
    omega
  · decide

/-! ## `ValueFromAmount` and `AmountFromValue` -/

/-- The text `ValueFromAmount` writes for an amount from `0` on is the literal of its whole
coins and its eight decimals. -/
def amountLiteral (n : Nat) : Literal where
  negative := false
  whole := formatDecimal (n / COIN.toNat)
  fraction := formatDecimal08 (n % COIN.toNat)
  exponent := none
  whole_digits := formatDecimal_digits _
  whole_lead := toDigits_lead _
  fraction_digits := formatDecimal08_digits _

theorem COIN_toNat : COIN.toNat = 10 ^ 8 := rfl

theorem ValueFromAmount_val {n : Int} (h0 : 0 ≤ n) :
    (ValueFromAmount n).getValStr = (amountLiteral n.natAbs).render := by
  have hlen := length_formatDecimal08 (n := n.natAbs % COIN.toNat) (by rw [COIN_toNat]; exact Nat.mod_lt _ (by decide))
  have hne : formatDecimal08 (n.natAbs % COIN.toNat) ≠ [] := by
    intro h
    rw [h] at hlen
    cases hlen
  rw [ValueFromAmount, UniValue.getValStr, Literal.render, amountLiteral, fractionChars, if_neg hne,
    exponentChars, decide_eq_false (by omega), List.append_nil]

/-- Eight decimals make the literal's value in units of `10^-8` the amount itself. -/
theorem amountLiteral_value (n : Nat) : (amountLiteral n).value * 10 ^ (8 : Int) = n := by
  have hlen := length_formatDecimal08 (n := n % COIN.toNat) (by rw [COIN_toNat]; exact Nat.mod_lt _ (by decide))
  have hval := (amountLiteral n).value_mul_zpow (m := n) (z := 0) ?_ 8
  · rw [hval]
    simp [amountLiteral, exponentValue, hlen]
  · rw [pow_zero, Nat.mul_one]
    simp only [amountLiteral]
    rw [digitsValue_append, formatDecimal, digitsValue_toDigits, digitsValue_formatDecimal08, hlen, COIN_toNat]
    exact (Nat.div_add_mod' n _).symm

/-- Every amount from `0` to `MAX_MONEY` is read back from its JSON number. -/
theorem AmountFromValue_ValueFromAmount {n : Int} (h0 : 0 ≤ n) (h : n ≤ MAX_MONEY) :
    AmountFromValue (ValueFromAmount n) = .ok n := by
  have hU := UPPER_BOUND_eq
  have hmax : MAX_MONEY = 2100000000000000 := rfl
  rcases eq_or_ne n 0 with rfl | hne
  · decide
  have hwhole := length_formatDecimal_le (n := n.natAbs / COIN.toNat) (by rw [COIN_toNat]; omega)
  have hfrac := length_formatDecimal08 (n := n.natAbs % COIN.toNat) (by rw [COIN_toNat]; exact Nat.mod_lt _ (by decide))
  have hparse : ParseFixedPoint (ValueFromAmount n).getValStr 8 = some n := by
    rw [ValueFromAmount_val h0]
    apply ParseFixedPoint_render
    · -- the text has at most seventeen characters
      rw [← ValueFromAmount_val h0, ValueFromAmount, UniValue.getValStr, decide_eq_false (by omega)]
      simp only [if_false, Bool.false_eq_true, List.nil_append, List.length_append, List.length_cons]
      omega
    · decide
    · decide
    · have hcast : ((n.natAbs : Nat) : ℚ) = (n : ℚ) := by
        rw [Nat.cast_natAbs, Int.cast_abs, abs_of_nonneg (by exact_mod_cast h0)]
      rw [amountLiteral_value, hcast]
    · exact hne
    · omega
  have hrange : MoneyRange n = true := by
    simp only [MoneyRange, Bool.and_eq_true, decide_eq_true_eq]
    exact ⟨h0, h⟩
  have hnum : (!(ValueFromAmount n).isNum && !(ValueFromAmount n).isStr) = false := rfl
  rw [AmountFromValue, hnum, if_neg Bool.false_ne_true, hparse]
  dsimp only
  rw [hrange]
  rfl

/-! ## `FormatMoney` and `ParseMoney` -/

theorem getD_after_point (w f : List Char) (k : Nat) (d : Char) :
    (w ++ '.' :: f).getD (w.length + 1 + k) d = f.getD k d := by
  rw [List.getD_append_right _ _ _ _ (by omega), show w.length + 1 + k - w.length = k + 1 by omega,
    List.getD_cons_succ]

theorem getD_point (w f : List Char) (d : Char) : (w ++ '.' :: f).getD w.length d = '.' := by
  rw [List.getD_append_right _ _ _ _ (Nat.le_refl _), Nat.sub_self]
  rfl

/-- From the `j`-th decimal down, `trimCount` takes fewer than `j` characters, all of them
zeros: it stops at the latest at the second decimal, whose character two places before
is the point. -/
theorem trimCount_spec (w : List Char) {f : List Char} (hf : ∀ c ∈ f, c.isDigit = true) :
    ∀ j, 1 ≤ j → j < f.length →
      trimCount (w ++ '.' :: f) (w.length + 1 + j) < j ∧
      ∀ k < trimCount (w ++ '.' :: f) (w.length + 1 + j), f.getD (j - k) ' ' = '0' := by
  intro j
  induction j with
  | zero => intro h; omega
  | succ j ih =>
    intro _ hj
    rw [show w.length + 1 + (j + 1) = w.length + j + 2 by omega, trimCount,
      show w.length + j + 2 = w.length + 1 + (j + 1) by omega, getD_after_point]
    rcases Nat.eq_zero_or_pos j with rfl | hpos
    · -- at the first decimal the character two places before is the point
      simp only [Nat.add_zero]
      rw [getD_point, if_neg (fun h => absurd h.2 (by decide))]
      exact ⟨by omega, fun k hk => absurd hk (Nat.not_lt_zero k)⟩
    · have hprev : (f.getD (j - 1) ' ').isDigit = true := by
        rw [List.getD_eq_getElem _ _ (by omega)]
        exact hf _ (List.getElem_mem _)
      rw [show w.length + j = w.length + 1 + (j - 1) by omega, getD_after_point]
      by_cases h0 : f.getD (j + 1) ' ' = '0'
      · -- a zero: one more is trimmed, after those from the decimal before
        obtain ⟨hlt, hzeros⟩ := ih hpos (by omega)
        rw [if_pos ⟨h0, hprev⟩, show w.length + 1 + (j - 1) + 1 = w.length + 1 + j by omega]
        refine ⟨by omega, fun k hk => ?_⟩
        rcases k with _ | k
        · exact h0
        · rw [show j + 1 - (k + 1) = j - k by omega]
          exact hzeros k (by omega)
      · rw [if_neg (fun h => h0 h.1)]
        exact ⟨by omega, fun k hk => absurd hk (Nat.not_lt_zero k)⟩

/-- What `FormatMoney` writes for an amount from `0` on: the whole coins, the point and the
first `8 - t` of the eight decimals, after trimming `t ≤ 6` zeros. -/
theorem FormatMoney_eq {n : Int} (h0 : 0 ≤ n) :
    ∃ t, t ≤ 6 ∧
      FormatMoney n = formatDecimal (n.natAbs / COIN.toNat) ++ '.' :: (formatDecimal08 (n.natAbs % COIN.toNat)).take (8 - t) ∧
      (formatDecimal08 (n.natAbs % COIN.toNat)).drop (8 - t) = List.replicate t '0' := by
  have hlen := length_formatDecimal08 (n := n.natAbs % COIN.toNat) (by rw [COIN_toNat]; exact Nat.mod_lt _ (by decide))
  set w := formatDecimal (n.natAbs / COIN.toNat)
  set f := formatDecimal08 (n.natAbs % COIN.toNat)
  obtain ⟨hlt, hzeros⟩ := trimCount_spec (f := f) w (formatDecimal08_digits _) 7 (by decide) (by omega)
  have hidx : (w ++ '.' :: f).length - 1 = w.length + 1 + 7 := by
    rw [List.length_append, List.length_cons, hlen]
    omega
  set t := trimCount (w ++ '.' :: f) (w.length + 1 + 7)
  refine ⟨t, by omega, ?_, ?_⟩
  · -- the trimmed text keeps the whole coins, the point and `8 - t` decimals
    have htake : (w ++ '.' :: f).take ((w ++ '.' :: f).length - t) = w ++ '.' :: f.take (8 - t) := by
      rw [List.take_append, List.take_of_length_le (by simp; omega), List.length_append, List.length_cons, hlen,
        show w.length + (8 + 1) - t - w.length = (8 - t) + 1 by omega, List.take_succ_cons]
    unfold FormatMoney
    dsimp only
    rw [hidx, if_neg (by omega)]
    by_cases ht : t = 0
    · rw [if_neg (not_not.mpr ht), ht, Nat.sub_zero, List.take_of_length_le (by omega)]
    · rw [if_pos ht, htake]
  · -- the decimals trimmed are zeros
    apply List.eq_replicate_iff.mpr
    refine ⟨by rw [List.length_drop, hlen]; omega, fun c hc => ?_⟩
    obtain ⟨i, hi, rfl⟩ := List.getElem_of_mem hc
    rw [List.length_drop, hlen] at hi
    rw [List.getElem_drop, ← List.getD_eq_getElem _ ' ', show 8 - t + i = 7 - (t - 1 - i) by omega]
    exact hzeros _ (by omega)

/-- `unitsLoop` from the weight `10 ^ k` over a run of at most `k + 1` digits counts every
digit at its place and reads the run to its end. -/
theorem unitsLoop_digits {g : List Char} (hg : ∀ c ∈ g, c.isDigit = true) :
    ∀ (k : Nat) (u : Int), g.length ≤ k + 1 →
      unitsLoop g ((10 : Int) ^ k) u = (u + (digitsValue g : Int) * 10 ^ (k + 1 - g.length), []) := by
  -- induction on the digits, with the weight and the units read so far generalized
  induction g with
  | nil =>
    intro k u _
    rw [unitsLoop, digitsValue_nil, Nat.cast_zero, zero_mul, add_zero]
  | cons c g ih =>
    intro k u hlen
    rw [List.length_cons] at hlen
    have hc := hg c List.mem_cons_self
    have hpos : (10 : Int) ^ k > 0 := by positivity
    rw [unitsLoop, if_pos ⟨hc, hpos⟩, sub_zero_char hc, digitsValue_cons]
    rcases k with _ | k
    · -- the weight is one: this is the last digit
      obtain rfl : g = [] := List.eq_nil_of_length_eq_zero (by omega)
      rw [unitsLoop]
      simp
    · have hdiv : (10 : Int) ^ (k + 1) / 10 = 10 ^ k := by
        rw [pow_succ, Int.mul_ediv_cancel _ (by decide)]
      rw [hdiv, ih (fun d hd => hg d (List.mem_cons_of_mem _ hd)) k _ (by omega)]
      obtain ⟨e, he⟩ : ∃ e, k + 1 = g.length + e := ⟨k + 1 - g.length, by omega⟩
      rw [List.length_cons, show k + 1 - g.length = e by omega, show k + 1 + 1 - (g.length + 1) = e by omega,
        he, pow_add]
      congr 1
      push_cast
      ring

/-- The digits of the whole coins go to `strWhole`. -/
theorem parseMoneyLoop_digits {ds : List Char} (hds : ∀ c ∈ ds, c.isDigit = true) :
    ∀ strWhole p, parseMoneyLoop strWhole (ds ++ p) = parseMoneyLoop (strWhole ++ ds) p := by
  induction ds with
  | nil =>
    intro strWhole p
    rw [List.nil_append, List.append_nil]
  | cons c ds ih =>
    intro strWhole p
    have hc := hds c List.mem_cons_self
    have hpoint : c ≠ '.' := fun h => absurd (h ▸ hc) (by decide)
    have hspace := (printable_of_digit_or_point (Or.inl hc)).1
    rw [List.cons_append, parseMoneyLoop, if_neg hpoint, hspace, if_neg Bool.false_ne_true, hc, Bool.not_true,
      if_neg Bool.false_ne_true, ih (fun d hd => hds d (List.mem_cons_of_mem _ hd)), List.append_assoc,
      List.singleton_append]

/-- At the point the decimals go through `unitsLoop` from `CENT * 10`. -/
theorem parseMoneyLoop_point (strWhole p : List Char) :
    parseMoneyLoop strWhole ('.' :: p) =
      some (strWhole, (unitsLoop p (CENT * 10) 0).1, (unitsLoop p (CENT * 10) 0).2) := by
  rw [parseMoneyLoop, if_pos rfl]

/-- `atoi64` reads a run of digits whose value fits in `int64_t` exactly. -/
theorem atoi64_digits {ds : List Char} (hds : ∀ c ∈ ds, c.isDigit = true) (hne : ds ≠ [])
    (hv : digitsValue ds < 2 ^ 63) : atoi64 ds = digitsValue ds := by
  obtain ⟨c, cs, rfl⟩ := List.exists_cons_of_ne_nil hne
  have hc := hds c List.mem_cons_self
  have hdrop : (c :: cs).dropWhile isspace = c :: cs :=
    List.dropWhile_cons_of_neg (by rw [(printable_of_digit_or_point (Or.inl hc)).1]; decide)
  have htake : (c :: cs).takeWhile Char.isDigit = c :: cs := List.takeWhile_eq_self_iff.mpr hds
  unfold atoi64
  rw [hdrop]
  dsimp only
  -- the first character is a digit, so neither sign is read
  split
  next _ heq =>
    rw [(List.cons_eq_cons.mp heq).1] at hc
    exact absurd hc (by decide)
  next _ heq =>
    rw [(List.cons_eq_cons.mp heq).1] at hc
    exact absurd hc (by decide)
  next =>
    rw [htake, if_neg Bool.false_ne_true]
    omega

/-- Every amount from `0` to `MAX_MONEY` is read back by `ParseMoney` from its `FormatMoney` text. -/
theorem ParseMoney_FormatMoney {n : Int} (h0 : 0 ≤ n) (h : n ≤ MAX_MONEY) : ParseMoney (FormatMoney n) = some n := by
  obtain ⟨t, ht, hfmt, hdrop⟩ := FormatMoney_eq h0
  have hnat : (n.natAbs : Int) = n := Int.natAbs_of_nonneg h0
  have hmax : n.natAbs ≤ 2100000000000000 := by
    have : n ≤ 2100000000000000 := h
    omega
  have hq : n.natAbs / COIN.toNat ≤ 21000000 := by
    rw [COIN_toNat]
    omega
  have hr : n.natAbs % COIN.toNat < 10 ^ 8 := by
    rw [COIN_toNat]
    exact Nat.mod_lt _ (by decide)
  set w := formatDecimal (n.natAbs / COIN.toNat)
  set f := formatDecimal08 (n.natAbs % COIN.toNat)
  set g := f.take (8 - t)
  have hflen : f.length = 8 := length_formatDecimal08 hr
  have hwlen : w.length ≤ 8 := length_formatDecimal_le (by omega)
  have hwd : ∀ c ∈ w, c.isDigit = true := formatDecimal_digits _
  have hgd : ∀ c ∈ g, c.isDigit = true := fun c hc => formatDecimal08_digits _ c (List.mem_of_mem_take hc)
  -- the decimals kept, times the zeros trimmed, are the units
  have hgval : digitsValue g * 10 ^ t = n.natAbs % COIN.toNat := by
    have hsplit := digitsValue_append g (f.drop (8 - t))
    rw [List.take_append_drop, digitsValue_formatDecimal08, hdrop, digitsValue_replicate_zero, add_zero,
      List.length_replicate] at hsplit
    exact hsplit.symm
  have hunits : unitsLoop g (CENT * 10) 0 = (((n.natAbs % COIN.toNat : Nat) : Int), []) := by
    have hglen : g.length = 8 - t := by
      rw [List.length_take, hflen]
      omega
    rw [show CENT * 10 = (10 : Int) ^ 7 from rfl, unitsLoop_digits hgd 7 0 (by omega), hglen,
      show 7 + 1 - (8 - t) = t by omega, ← hgval]
    push_cast
    ring_nf
  -- the text is all digits and one point: no NUL ends it and no space starts it
  have hchars : ∀ c ∈ FormatMoney n, c.isDigit = true ∨ c = '.' := by
    intro c hc
    rw [hfmt, List.mem_append, List.mem_cons] at hc
    rcases hc with hc | hc | hc
    · exact Or.inl (hwd c hc)
    · exact Or.inr hc
    · exact Or.inl (hgd c hc)
  have hnul : (FormatMoney n).takeWhile (fun c => c != '\x00') = FormatMoney n :=
    List.takeWhile_eq_self_iff.mpr fun c hc => bne_iff_ne.mpr (printable_of_digit_or_point (hchars c hc)).2
  obtain ⟨c, cs, hw⟩ : ∃ c cs, w = c :: cs := List.exists_cons_of_ne_nil Nat.toDigits_ne_nil
  have hspace : (FormatMoney n).dropWhile isspace = FormatMoney n := by
    have hc : c.isDigit = true := hwd c (by rw [hw]; exact List.mem_cons_self)
    rw [hfmt, hw, List.cons_append]
    exact List.dropWhile_cons_of_neg (by rw [(printable_of_digit_or_point (Or.inl hc)).1]; decide)
  have hatoi : atoi64 w = ((n.natAbs / COIN.toNat : Nat) : Int) := by
    have hval : digitsValue w = n.natAbs / COIN.toNat := digitsValue_toDigits _
    rw [atoi64_digits hwd (by rw [hw]; exact List.cons_ne_nil c cs) (by omega), hval]
  have hcoin : COIN = 100000000 := rfl
  have hunits_le : ((n.natAbs % COIN.toNat : Nat) : Int) ≤ COIN := by
    have hr' : n.natAbs % COIN.toNat < 100000000 := hr
    omega
  unfold ParseMoney ParseMoneyPsz
  rw [hnul, hspace, hfmt]
  dsimp only
  rw [parseMoneyLoop_digits hwd, List.nil_append, parseMoneyLoop_point, hunits]
  simp only [Option.bind_eq_bind, Option.bind_some]
  rw [if_neg (by decide), if_neg (by omega), if_neg (by omega), hatoi]
  congr 1
  have hdm := Nat.div_add_mod n.natAbs COIN.toNat
  rw [COIN_toNat] at hdm ⊢
  rw [hcoin]
  omega

/-- `ParseFixedPoint` accepts exactly the decimal literals whose value, scaled by the
decimals, is an integer of at most eighteen digits, and reads that integer; the amounts that
`ValueFromAmount` and `FormatMoney` write are read back unchanged. -/
theorem ParseFixedPoint_exact :
    (∀ (s : List Char) (d out : Int), ParseFixedPoint s d = some out →
        ∃ lit : Literal, lit.render = s ∧ (out : ℚ) = lit.value * 10 ^ d ∧ out.natAbs ≤ 10 ^ 18 - 1) ∧
      (∀ (lit : Literal) (d v : Int), lit.render.length < 2 ^ 31 → 0 ≤ d → d ≤ 17 →
        (v : ℚ) = lit.value * 10 ^ d → v ≠ 0 → v.natAbs ≤ 10 ^ 18 - 1 → ParseFixedPoint lit.render d = some v) ∧
      ∀ n : Int, 0 ≤ n → n ≤ MAX_MONEY →
        AmountFromValue (ValueFromAmount n) = .ok n ∧ ParseMoney (FormatMoney n) = some n := by
  refine ⟨fun s d out h => ?_, fun lit d v hlen hd0 hd hv hne hle => ?_, fun n h0 h => ?_⟩
  · obtain ⟨lit, hrender, hval, hbound⟩ := ParseFixedPoint_eq_some h
    refine ⟨lit, hrender, hval, ?_⟩
    rw [UPPER_BOUND_eq] at hbound
    omega
  · apply ParseFixedPoint_render hlen hd0 hd hv hne
    rw [UPPER_BOUND_eq]
    omega
  · exact ⟨AmountFromValue_ValueFromAmount h0 h, ParseMoney_FormatMoney h0 h⟩


/-- The literal `1.5`. -/
def oneAndAHalf : Literal :=
  ⟨false, ['1'], ['5'], none, by simp, Or.inr ⟨'1', [], rfl, by simp⟩, by simp⟩

theorem oneAndAHalf_value : oneAndAHalf.value * 10 ^ (8 : Int) = (150000000 : Int) := by
  have h : digitsValue (['1'] ++ ['5']) = 15 := by decide
  simp only [Literal.value, oneAndAHalf, h, exponentValue]
  norm_num

theorem ParseFixedPoint_exact_one_and_a_half :
    (∃ lit : Literal, lit.render = "1.5".toList ∧ ((150000000 : Int) : ℚ) = lit.value * 10 ^ (8 : Int) ∧
        (150000000 : Int).natAbs ≤ 10 ^ 18 - 1) ∧
      ParseFixedPoint oneAndAHalf.render 8 = some 150000000 ∧
      AmountFromValue (ValueFromAmount 150000000) = .ok 150000000 ∧
        ParseMoney (FormatMoney 150000000) = some 150000000 :=
  ⟨ParseFixedPoint_exact.1 "1.5".toList 8 150000000 (by decide),
    ParseFixedPoint_exact.2.1 oneAndAHalf 8 150000000 (by decide) (by decide) (by decide)
      oneAndAHalf_value.symm (by decide) (by decide),
    ParseFixedPoint_exact.2.2 150000000 (by decide) (by decide)⟩

end BitcoinPQ

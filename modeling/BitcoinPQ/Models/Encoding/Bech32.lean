import BitcoinPQ.Core.Digits

/-!
# Bech32

`bech32.cpp`: a string is a human-readable part, the separator `1`, and 5-bit values
written with `CHARSET`, of which the last six are a checksum. `PolyMod` is the remainder
of a polynomial over GF(32) modulo the generator of a BCH code, kept as six 5-bit
coefficients in one 30-bit number; `CreateChecksum` picks the six values that make the
remainder of the whole string `1`, the value `VerifyChecksum` asks for.

Strings are lists of characters that stand for the bytes of a `std::string`. The
`uint32_t` remainder is a natural number: a round never leaves 30 bits
(`polyModStep_lt`), so nothing is lost. Values are bytes; those written by `Encode`
are below 32 (`CHARSET[c]` is read for them only).

The main facts: one round of `PolyMod` is linear in the low 25 bits of the remainder
and in the value it reads (`polyModStep_xor`), so the checksum cancels the remainder
(`PolyMod_append_CreateChecksum`), and `Decode` reads back what `Encode` writes
(`Decode_Encode`).
-/

namespace BitcoinPQ

open Digits

namespace bech32

/-- `CHARSET`: the character of each 5-bit value. -/
def CHARSET : List Char := "qpzry9x8gf2tvdw0s3jn54khce6mua7l".toList

/-- `CHARSET_REV`: the value of each ASCII character, `-1` for none. -/
def CHARSET_REV : List Int := [
    -1, -1, -1, -1, -1, -1, -1, -1, -1, -1, -1, -1, -1, -1, -1, -1,
    -1, -1, -1, -1, -1, -1, -1, -1, -1, -1, -1, -1, -1, -1, -1, -1,
    -1, -1, -1, -1, -1, -1, -1, -1, -1, -1, -1, -1, -1, -1, -1, -1,
    15, -1, 10, 17, 21, 20, 26, 30,  7,  5, -1, -1, -1, -1, -1, -1,
    -1, 29, -1, 24, 13, 25,  9,  8, 23, -1, 18, 22, 31, 27, 19, -1,
     1,  0,  3, 16, 11, 28, 12, 14,  6,  4,  2, -1, -1, -1, -1, -1,
    -1, 29, -1, 24, 13, 25,  9,  8, 23, -1, 18, 22, 31, 27, 19, -1,
     1,  0,  3, 16, 11, 28, 12, 14,  6,  4,  2, -1, -1, -1, -1, -1]

/-- The additions of `{2^n}k(x)` for each bit `n` set in the top coefficient `c0`. -/
def addGenerators (c0 c : ℕ) : ℕ :=
  let c := if c0 &&& 1 ≠ 0 then c ^^^ 0x3b6a57b2 else c
  let c := if c0 &&& 2 ≠ 0 then c ^^^ 0x26508e6d else c
  let c := if c0 &&& 4 ≠ 0 then c ^^^ 0x1ea119fa else c
  let c := if c0 &&& 8 ≠ 0 then c ^^^ 0x3d4233dd else c
  if c0 &&& 16 ≠ 0 then c ^^^ 0x2a1462b3 else c

/-- One round of `PolyMod`: multiply the remainder by `x`, add `v_i`, and reduce the
`x^6` term by the generator. -/
def polyModStep (c v : ℕ) : ℕ :=
  let c0 := c >>> 25
  addGenerators c0 (((c &&& 0x1ffffff) <<< 5) ^^^ v)

/-- `PolyMod`. -/
def PolyMod (v : List ℕ) : ℕ := v.foldl polyModStep 1

/-- `LowerCase`. -/
def LowerCase (c : Char) : Char :=
  if 'A'.toNat ≤ c.toNat ∧ c.toNat ≤ 'Z'.toNat then Char.ofNat (c.toNat - 'A'.toNat + 'a'.toNat) else c

/-- `ExpandHRP`: the high bits of each character, a zero, then the low five bits of each. -/
def ExpandHRP (hrp : List Char) : List ℕ :=
  hrp.map (fun c => c.toNat >>> 5) ++ [0] ++ hrp.map (fun c => c.toNat &&& 0x1f)

/-- `VerifyChecksum`. -/
def VerifyChecksum (hrp : List Char) (values : List ℕ) : Bool :=
  PolyMod (ExpandHRP hrp ++ values) == 1

/-- `CreateChecksum`: the six 5-bit groups of what to add to six zeros. -/
def CreateChecksum (hrp : List Char) (values : List ℕ) : List ℕ :=
  let enc := ExpandHRP hrp ++ values ++ List.replicate 6 0
  let mod := PolyMod enc ^^^ 1
  (List.range 6).map fun i => (mod >>> (5 * (5 - i))) &&& 31

/-- `bech32::Encode`. -/
def Encode (hrp : List Char) (values : List ℕ) : List Char :=
  let checksum := CreateChecksum hrp values
  let combined := values ++ checksum
  hrp ++ ['1'] ++ combined.map fun c => CHARSET.getD c ' '

/-- `std::string::rfind`: the position of the last `c`, `none` for `npos`. -/
def rfind (s : List Char) (c : Char) : Option ℕ :=
  (s.reverse.idxOf? c).map fun j => s.length - 1 - j

def isPrintable (c : Char) : Bool := 33 ≤ c.toNat && c.toNat ≤ 126

def isLower (c : Char) : Bool := 'a'.toNat ≤ c.toNat && c.toNat ≤ 'z'.toNat

def isUpper (c : Char) : Bool := 'A'.toNat ≤ c.toNat && c.toNat ≤ 'Z'.toNat

/-- The value of a data character, `none` where `rev == -1`. -/
def revValue (c : Char) : Option ℕ :=
  let rev : Int := if !isPrintable c then -1 else CHARSET_REV.getD c.toNat (-1)
  if rev = -1 then none else some rev.toNat

/-- `bech32::Decode`: the human-readable part and the values before the checksum, both
empty where it returns `{}`. -/
def Decode (str : List Char) : List Char × List ℕ :=
  if !str.all isPrintable then ([], [])
  else if str.any isLower && str.any isUpper then ([], [])
  else
    match rfind str '1' with
    | none => ([], [])
    | some pos =>
      if str.length > 90 ∨ pos = 0 ∨ pos + 7 > str.length then ([], [])
      else
        match (str.drop (pos + 1)).mapM revValue with
        | none => ([], [])
        | some values =>
          let hrp := (str.take pos).map LowerCase
          if !VerifyChecksum hrp values then ([], [])
          else (hrp, values.take (values.length - 6))

/-! ## The remainder -/

/-- The additions of multiples of `k(x)` commute with adding a value. -/
theorem addGenerators_xor (c0 c d : ℕ) : addGenerators c0 (c ^^^ d) = addGenerators c0 c ^^^ d := by
  simp only [addGenerators]
  split_ifs <;> ac_rfl

theorem addGenerators_lt (c0 : ℕ) {c : ℕ} (hc : c < 2 ^ 30) : addGenerators c0 c < 2 ^ 30 := by
  have hzero : addGenerators c0 0 < 2 ^ 30 := by
    simp only [addGenerators]
    split_ifs <;> decide
  rw [← Nat.zero_xor c, addGenerators_xor]
  exact Nat.xor_lt_two_pow hzero hc

/-- The five low coefficients, each moved up by one place. -/
theorem shiftLeft_low (c : ℕ) : (c &&& 0x1ffffff) <<< 5 = c % 2 ^ 25 * 2 ^ 5 := by
  rw [show (0x1ffffff : ℕ) = 2 ^ 25 - 1 from rfl, Nat.and_two_pow_sub_one_eq_mod, Nat.shiftLeft_eq]

/-- A round never leaves 30 bits. -/
theorem polyModStep_lt (c : ℕ) {v : ℕ} (hv : v < 2 ^ 30) : polyModStep c v < 2 ^ 30 := by
  apply addGenerators_lt
  apply Nat.xor_lt_two_pow _ hv
  rw [shiftLeft_low]
  calc c % 2 ^ 25 * 2 ^ 5 < 2 ^ 25 * 2 ^ 5 :=
        Nat.mul_lt_mul_of_pos_right (Nat.mod_lt _ (by norm_num)) (by norm_num)
    _ = 2 ^ 30 := by norm_num

/-- A round is linear in the low 25 bits of the remainder and in the value it reads:
these leave the top coefficient, and so the multiple of `k(x)` added, alone. -/
theorem polyModStep_xor (c : ℕ) {d v : ℕ} (hd : d < 2 ^ 25) (hv : v < 2 ^ 5) :
    polyModStep (c ^^^ d) v = polyModStep c 0 ^^^ (d * 2 ^ 5 + v) := by
  have htop : (c ^^^ d) >>> 25 = c >>> 25 := by
    rw [Nat.shiftRight_eq_div_pow, Nat.shiftRight_eq_div_pow, xor_div_two_pow_of_lt hd]
  have hlow : ((c ^^^ d) &&& 0x1ffffff) <<< 5 ^^^ v =
      ((c &&& 0x1ffffff) <<< 5 ^^^ 0) ^^^ (d * 2 ^ 5 + v) := by
    rw [shiftLeft_low, shiftLeft_low, xor_mod_two_pow_of_lt hd, xor_mul_two_pow, Nat.xor_zero,
      Nat.xor_assoc, mul_two_pow_xor_of_lt d hv]
  simp only [polyModStep]
  rw [htop, hlow, addGenerators_xor]

/-- Up to six values below 32 read after any remainder add their number to what
reading as many zeros gives: each enters below the top coefficient. -/
theorem foldl_polyModStep_eq_xor (c : ℕ) {xs : List ℕ} (hlen : xs.length ≤ 6)
    (hxs : ∀ x ∈ xs, x < 2 ^ 5) :
    xs.foldl polyModStep c = (List.replicate xs.length 0).foldl polyModStep c ^^^ beValue (2 ^ 5) xs := by
  induction xs using List.reverseRecOn with
  | nil => simp
  | append_singleton xs v ih =>
    rw [List.length_append, List.length_singleton] at hlen
    have hv : v < 2 ^ 5 := hxs v (List.mem_append_right _ (List.mem_singleton_self v))
    have hxs' : ∀ x ∈ xs, x < 2 ^ 5 := fun x hx => hxs x (List.mem_append_left _ hx)
    -- what was read before `v` is below `2 ^ 25`
    have hlt : beValue (2 ^ 5) xs < 2 ^ 25 :=
      calc beValue (2 ^ 5) xs < (2 ^ 5) ^ xs.length := beValue_lt (by norm_num) hxs'
        _ ≤ (2 ^ 5) ^ 5 := Nat.pow_le_pow_right (by norm_num) (by omega)
        _ = 2 ^ 25 := by norm_num
    rw [List.foldl_append, ih (by omega) hxs', List.foldl_cons, List.foldl_nil, polyModStep_xor _ hlt hv,
      List.length_append, List.length_singleton, List.replicate_succ', List.foldl_append, List.foldl_cons,
      List.foldl_nil, beValue_append_singleton]

/-- The six values of `CreateChecksum` are the 5-bit groups of the remainder to cancel. -/
theorem beValue_CreateChecksum (hrp : List Char) (values : List ℕ) :
    beValue (2 ^ 5) (CreateChecksum hrp values) =
      (PolyMod (ExpandHRP hrp ++ values ++ List.replicate 6 0) ^^^ 1) % 2 ^ 30 := by
  have hgroups : ∀ m : ℕ, ((List.range 6).map fun i => (m >>> (5 * (5 - i))) &&& 31) =
      (List.range 6).map fun i => m / (2 ^ 5) ^ (6 - 1 - i) % 2 ^ 5 := by
    intro m
    apply List.map_congr_left
    intro i hi
    have hi6 : 6 - 1 - i = 5 - i := by omega
    rw [show (31 : ℕ) = 2 ^ 5 - 1 from rfl, Nat.and_two_pow_sub_one_eq_mod, Nat.shiftRight_eq_div_pow,
      pow_mul, hi6]
  simp only [CreateChecksum]
  rw [hgroups, beValue_range_map, ← pow_mul]

theorem CreateChecksum_lt (hrp : List Char) (values : List ℕ) :
    ∀ x ∈ CreateChecksum hrp values, x < 2 ^ 5 := by
  intro x hx
  simp only [CreateChecksum, List.mem_map] at hx
  obtain ⟨i, -, rfl⟩ := hx
  exact Nat.and_lt_two_pow _ (by norm_num)

theorem length_CreateChecksum (hrp : List Char) (values : List ℕ) :
    (CreateChecksum hrp values).length = 6 := by
  simp [CreateChecksum]

/-- The remainder of a string followed by its checksum is `1`. -/
theorem PolyMod_append_CreateChecksum (hrp : List Char) (values : List ℕ) :
    PolyMod (ExpandHRP hrp ++ values ++ CreateChecksum hrp values) = 1 := by
  -- six zeros end with a round that reads `0`, so the remainder to cancel has 30 bits
  have hzeros : PolyMod (ExpandHRP hrp ++ values ++ List.replicate 6 0) < 2 ^ 30 := by
    rw [PolyMod, List.replicate_succ', ← List.append_assoc, List.foldl_append, List.foldl_cons,
      List.foldl_nil]
    exact polyModStep_lt _ (by norm_num)
  have hmod : (PolyMod (ExpandHRP hrp ++ values ++ List.replicate 6 0) ^^^ 1) % 2 ^ 30 =
      PolyMod (ExpandHRP hrp ++ values ++ List.replicate 6 0) ^^^ 1 :=
    Nat.mod_eq_of_lt (Nat.xor_lt_two_pow hzeros (by norm_num))
  rw [PolyMod, List.foldl_append,
    foldl_polyModStep_eq_xor _ (by rw [length_CreateChecksum]) (CreateChecksum_lt hrp values),
    length_CreateChecksum, ← List.foldl_append, ← PolyMod, beValue_CreateChecksum, hmod,
    ← Nat.xor_assoc, Nat.xor_self, Nat.zero_xor]

/-! ## Reading back -/

theorem revValue_getD_CHARSET {v : ℕ} (hv : v < 32) : revValue (CHARSET.getD v ' ') = some v := by
  revert v
  decide

/-- The characters written for values are printable, lower case, and no separator. -/
theorem CHARSET_getD_chars {v : ℕ} (hv : v < 32) :
    isPrintable (CHARSET.getD v ' ') = true ∧ isUpper (CHARSET.getD v ' ') = false ∧
      CHARSET.getD v ' ' ≠ '1' := by
  revert v
  decide

theorem LowerCase_of_not_isUpper {c : Char} (h : isUpper c = false) : LowerCase c = c := by
  rw [LowerCase, if_neg]
  intro hc
  have hA : 'A'.toNat = 65 := rfl
  have hZ : 'Z'.toNat = 90 := rfl
  rw [hA, hZ] at hc
  simp [isUpper] at h
  exact absurd (h hc.1) (by omega)

/-- The last `c` of a string is the one before a tail without `c`. -/
theorem rfind_append_cons {s t : List Char} {c : Char} (ht : c ∉ t) :
    rfind (s ++ c :: t) c = some s.length := by
  have hnone : t.reverse.findIdx? (· == c) = none := by
    rw [List.findIdx?_eq_none_iff]
    intro x hx
    rw [beq_eq_false_iff_ne]
    rintro rfl
    exact ht (List.mem_reverse.mp hx)
  simp [rfind, List.idxOf?, List.findIdx?_append, hnone, List.findIdx?_cons]

theorem le_toNat_of_isPrintable {c : Char} (h : isPrintable c = true) : 33 ≤ c.toNat := by
  simp only [isPrintable, Bool.and_eq_true, decide_eq_true_eq] at h
  exact h.1

theorem Encode_eq (hrp : List Char) (values : List ℕ) :
    Encode hrp values = hrp ++ '1' :: (values ++ CreateChecksum hrp values).map fun c => CHARSET.getD c ' ' := by
  simp only [Encode, List.append_assoc, List.singleton_append]

theorem lt_of_mem_append_CreateChecksum (hrp : List Char) {values : List ℕ} (hvalues : ∀ v ∈ values, v < 32) :
    ∀ v ∈ values ++ CreateChecksum hrp values, v < 32 := by
  intro v hv
  rcases List.mem_append.mp hv with hv | hv
  · exact hvalues v hv
  · exact CreateChecksum_lt hrp values v hv

theorem Encode_ne_nil (hrp : List Char) (values : List ℕ) : Encode hrp values ≠ [] := by
  rw [Encode_eq]
  exact List.append_ne_nil_of_right_ne_nil hrp (List.cons_ne_nil _ _)

/-- `Encode` writes printable characters only, for a printable human-readable part. -/
theorem isPrintable_of_mem_Encode {hrp : List Char} {values : List ℕ} (hprint : ∀ c ∈ hrp, isPrintable c = true)
    (hvalues : ∀ v ∈ values, v < 32) : ∀ c ∈ Encode hrp values, isPrintable c = true := by
  intro c hc
  rw [Encode_eq] at hc
  rcases List.mem_append.mp hc with hc | hc
  · exact hprint c hc
  · rcases List.mem_cons.mp hc with rfl | hc
    · rfl
    · obtain ⟨v, hv, rfl⟩ := List.mem_map.mp hc
      exact (CHARSET_getD_chars (lt_of_mem_append_CreateChecksum hrp hvalues v hv)).1

/-- `Decode` reads back what `Encode` writes, for a human-readable part of printable
characters without upper case, and values below 32, that fit in 90 characters. -/
theorem Decode_Encode {hrp : List Char} {values : List ℕ} (hhrp : hrp ≠ [])
    (hprint : ∀ c ∈ hrp, isPrintable c = true) (hupper : ∀ c ∈ hrp, isUpper c = false)
    (hvalues : ∀ v ∈ values, v < 32) (hsize : hrp.length + values.length + 7 ≤ 90) :
    Decode (Encode hrp values) = (hrp, values) := by
  have hcomb := lt_of_mem_append_CreateChecksum hrp hvalues
  have hall : (Encode hrp values).all isPrintable = true :=
    List.all_eq_true.mpr (isPrintable_of_mem_Encode hprint hvalues)
  rw [Encode_eq] at hall ⊢
  set data := (values ++ CreateChecksum hrp values).map fun c => CHARSET.getD c ' ' with hdata
  have hdata_chars : ∀ c ∈ data, isUpper c = false ∧ c ≠ '1' := by
    intro c hc
    obtain ⟨v, hv, rfl⟩ := List.mem_map.mp hc
    exact (CHARSET_getD_chars (hcomb v hv)).2
  -- no upper case, and the separator is the last `1`, after the human-readable part
  have hlen : (hrp ++ '1' :: data).length = hrp.length + values.length + 7 := by
    simp only [hdata, List.length_append, List.length_cons, List.length_map, length_CreateChecksum]
    omega
  have hnoupper : (hrp ++ '1' :: data).any isUpper = false := by
    rw [List.any_eq_false]
    intro c hc
    rcases List.mem_append.mp hc with hc | hc
    · simp [hupper c hc]
    · rcases List.mem_cons.mp hc with rfl | hc
      · decide
      · simp [(hdata_chars c hc).1]
  have hpos : rfind (hrp ++ '1' :: data) '1' = some hrp.length :=
    rfind_append_cons fun h => (hdata_chars '1' h).2 rfl
  have hhrp_len : 0 < hrp.length := List.length_pos_iff.mpr hhrp
  have hdrop : (hrp ++ '1' :: data).drop (hrp.length + 1) = data := by
    rw [← List.singleton_append, ← List.append_assoc, List.drop_left' (by simp)]
  have htake : (hrp ++ '1' :: data).take hrp.length = hrp := List.take_left' rfl
  -- the values and their checksum read back, and the checksum verifies
  have hmap : data.mapM revValue = some (values ++ CreateChecksum hrp values) :=
    mapM_map_of_inverse fun v hv => revValue_getD_CHARSET (hcomb v hv)
  have hlower : hrp.map LowerCase = hrp := by
    conv_rhs => rw [← List.map_id hrp]
    exact List.map_congr_left fun c hc => LowerCase_of_not_isUpper (hupper c hc)
  have hverify : VerifyChecksum hrp (values ++ CreateChecksum hrp values) = true := by
    rw [VerifyChecksum, ← List.append_assoc, PolyMod_append_CreateChecksum]
    rfl
  have htake6 : (values ++ CreateChecksum hrp values).take
      ((values ++ CreateChecksum hrp values).length - 6) = values := by
    rw [List.length_append, length_CreateChecksum, Nat.add_sub_cancel]
    exact List.take_left' rfl
  rw [Decode, if_neg (by rw [hall]; decide), if_neg (by rw [hnoupper, Bool.and_false]; decide), hpos]
  dsimp only
  rw [if_neg (by omega), hdrop, hmap]
  dsimp only
  rw [htake, hlower, hverify]
  simp only [Bool.not_true, Bool.false_eq_true, if_false, htake6]

/-! ## Writing back what was read -/

/-- The last `c` of a string is a `c`. -/
theorem rfind_spec {s : List Char} {c : Char} {pos : ℕ} (h : rfind s c = some pos) :
    pos < s.length ∧ s[pos]? = some c := by
  obtain ⟨j, hj, rfl⟩ := Option.map_eq_some_iff.mp h
  obtain ⟨hjlt, hjc, -⟩ := List.idxOf?_eq_some_iff.mp hj
  rw [List.length_reverse] at hjlt
  refine ⟨by omega, ?_⟩
  rw [List.getElem?_eq_getElem (by omega), ← hjc, List.getElem_reverse]

/-- The value of a data character, written back, is the character in lower case. -/
theorem revValue_spec {c : Char} {v : ℕ} (h : revValue c = some v) :
    v < 32 ∧ CHARSET.getD v ' ' = LowerCase c := by
  -- only the 127 characters below `DEL` can be printable; the table is checked on them
  have htable : ∀ n < 127, (revValue (Char.ofNat n)).all
      (fun v => decide (v < 32) && CHARSET.getD v ' ' == LowerCase (Char.ofNat n)) = true := by
    decide
  have hprint : isPrintable c = true := by
    by_contra hc
    simp [revValue, hc] at h
  have hc127 : c.toNat < 127 := by
    simp only [isPrintable, Bool.and_eq_true, decide_eq_true_eq] at hprint
    omega
  have hc := htable c.toNat hc127
  rw [Char.ofNat_toNat, h] at hc
  simpa using hc

/-- The values read from characters, written back, are the characters in lower case. -/
theorem mapM_revValue_spec : ∀ {cs : List Char} {vs : List ℕ}, cs.mapM revValue = some vs →
    (∀ v ∈ vs, v < 32) ∧ vs.map (fun v => CHARSET.getD v ' ') = cs.map LowerCase
  | [], vs, h => by
    obtain rfl : vs = [] := by simpa using h.symm
    exact ⟨fun _ h => absurd h List.not_mem_nil, rfl⟩
  | c :: cs, vs, h => by
    obtain ⟨v, vs', hv, hvs', rfl⟩ := mapM_cons_eq_some.mp h
    obtain ⟨hlt, hmap⟩ := mapM_revValue_spec hvs'
    obtain ⟨hv32, hvc⟩ := revValue_spec hv
    refine ⟨fun x hx => ?_, by rw [List.map_cons, List.map_cons, hvc, hmap]⟩
    rcases List.mem_cons.mp hx with rfl | hx
    · exact hv32
    · exact hlt x hx

/-- Six values that make the remainder `1` are the checksum. -/
theorem eq_CreateChecksum {hrp : List Char} {values cs : List ℕ} (hlen : cs.length = 6)
    (hcs : ∀ x ∈ cs, x < 2 ^ 5) (h : PolyMod (ExpandHRP hrp ++ values ++ cs) = 1) :
    cs = CreateChecksum hrp values := by
  -- six values read after the string add their number to the remainder of six zeros
  have hpre : ∀ xs : List ℕ, xs.length = 6 → (∀ x ∈ xs, x < 2 ^ 5) →
      PolyMod (ExpandHRP hrp ++ values ++ xs) =
        PolyMod (ExpandHRP hrp ++ values ++ List.replicate 6 0) ^^^ beValue (2 ^ 5) xs := by
    intro xs hl hx
    rw [PolyMod, List.foldl_append, foldl_polyModStep_eq_xor _ (by rw [hl]) hx, hl, ← List.foldl_append,
      ← PolyMod]
  have hcancel : ∀ a b : ℕ, a ^^^ b = 1 → b = a ^^^ 1 := by
    intro a b hab
    rw [← hab, ← Nat.xor_assoc, Nat.xor_self, Nat.zero_xor]
  have h1 := hpre cs hlen hcs
  have h2 := hpre _ (length_CreateChecksum hrp values) (CreateChecksum_lt hrp values)
  rw [h] at h1
  rw [PolyMod_append_CreateChecksum] at h2
  have hval : beValue (2 ^ 5) cs = beValue (2 ^ 5) (CreateChecksum hrp values) := by
    rw [hcancel _ _ h1.symm, hcancel _ _ h2.symm]
  exact beValue_inj (by norm_num) (by rw [hlen, length_CreateChecksum]) hcs (CreateChecksum_lt hrp values) hval

/-- What `Decode` reads with a non-empty human-readable part, `Encode` writes back as the
string in lower case. -/
theorem Encode_Decode {str hrp : List Char} {values : List ℕ} (h : Decode str = (hrp, values))
    (hhrp : hrp ≠ []) : Encode hrp values = str.map LowerCase := by
  have hfail : ((([] : List Char), ([] : List ℕ)) = (hrp, values)) → False := fun he =>
    hhrp (Prod.mk.inj he).1.symm
  rw [Decode] at h
  split_ifs at h with hall hmixed
  · exact absurd h hfail
  · exact absurd h hfail
  cases hpos : rfind str '1' with
  | none => rw [hpos] at h; exact absurd h hfail
  | some pos =>
    rw [hpos] at h
    dsimp only at h
    split_ifs at h with hsize
    · exact absurd h hfail
    cases hvals : (str.drop (pos + 1)).mapM revValue with
    | none => rw [hvals] at h; exact absurd h hfail
    | some vals =>
      rw [hvals] at h
      dsimp only at h
      split_ifs at h with hverify
      · exact absurd h hfail
      obtain ⟨rfl, rfl⟩ := Prod.mk.inj h
      obtain ⟨hposlt, hsep⟩ := rfind_spec hpos
      obtain ⟨hlt, hmap⟩ := mapM_revValue_spec hvals
      have hlen : vals.length = str.length - (pos + 1) := by
        rw [← List.length_drop, ← List.length_map (f := fun v => CHARSET.getD v ' '), hmap, List.length_map]
      -- the last six values are the checksum of the others
      have hcheck : CreateChecksum ((str.take pos).map LowerCase) (vals.take (vals.length - 6)) =
          vals.drop (vals.length - 6) := by
        refine (eq_CreateChecksum (by rw [List.length_drop]; omega)
          (fun x hx => hlt x (List.mem_of_mem_drop hx)) ?_).symm
        rw [List.append_assoc, List.take_append_drop]
        simpa [VerifyChecksum] using hverify
      rw [Encode_eq, hcheck, List.take_append_drop, hmap]
      -- the string is the part before the separator, the separator, and the rest
      have hsep' : str[pos] = '1' := Option.some.inj ((List.getElem?_eq_getElem hposlt).symm.trans hsep)
      conv_rhs => rw [← List.take_append_drop pos str, List.drop_eq_getElem_cons hposlt, hsep']
      rw [List.map_append, List.map_cons]
      rfl

theorem Decode_Encode_round_trip :
    (∀ (hrp : List Char) (values : List ℕ), hrp ≠ [] →
        (∀ c ∈ hrp, isPrintable c = true ∧ isUpper c = false) → (∀ v ∈ values, v < 32) →
        hrp.length + 1 + values.length + 6 ≤ 90 → Decode (Encode hrp values) = (hrp, values)) ∧
      ∀ (str hrp : List Char) (values : List ℕ), Decode str = (hrp, values) → hrp ≠ [] →
        Encode hrp values = str.map LowerCase :=
  ⟨fun _ _ hhrp hchars hvalues hsize => Decode_Encode hhrp (fun c hc => (hchars c hc).1)
      (fun c hc => (hchars c hc).2) hvalues (by omega),
    fun _ _ _ h hhrp => Encode_Decode h hhrp⟩

example : Decode "a12uel5l".toList = (['a'], []) := by decide


theorem Decode_Encode_round_trip_bc :
    Decode (Encode ['b', 'c'] [0, 14, 20]) = (['b', 'c'], [0, 14, 20]) ∧
      Encode ['a'] [] = "a12uel5l".toList.map LowerCase :=
  ⟨Decode_Encode_round_trip.1 ['b', 'c'] [0, 14, 20] (by decide) (by simp [isPrintable, isUpper])
      (by decide) (by decide),
    Decode_Encode_round_trip.2 "a12uel5l".toList ['a'] [] (by decide) (by decide)⟩

end bech32

end BitcoinPQ

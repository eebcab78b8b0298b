import BitcoinPQ.Core.Digits

/-!
# Regrouping bits

`ConvertBits<frombits, tobits, pad>` in `utilstrencodings.h` reads groups of
`frombits` bits, most significant first, and appends to `out` the same bit string cut
into groups of `tobits` bits. With `pad` the last group is filled with zeros; without
it, leftover bits are an error unless they are fewer than `frombits` and all zero.
Segwit addresses use it from bytes to the 5-bit symbols of bech32 and back.

The groups are natural numbers, as are the `size_t` accumulator and counter: `acc` is
cut to `frombits + tobits - 1` bits in each round, so nothing overflows. The inner
`while` loop takes `tobits` bits per round; it is given as many rounds as there are
bits, enough for the positive `tobits` of every instance (`drainBits_spec`).
-/

namespace BitcoinPQ

open Digits

/-- The inner loop of `ConvertBits`: while `bits >= tobits`, the top `tobits` of the
`bits` low bits of `acc` go to `out`. The new `out` and `bits`. -/
def drainBits (tobits acc : ℕ) : (fuel bits : ℕ) → List ℕ → List ℕ × ℕ
  | 0, bits, out => (out, bits)
  | fuel + 1, bits, out =>
    if bits ≥ tobits then
      drainBits tobits acc fuel (bits - tobits)
        (out ++ [(acc >>> (bits - tobits)) &&& ((1 <<< tobits) - 1)])
    else (out, bits)

/-- `acc = ((acc << frombits) | *it) & max_acc`. -/
def pushBits (frombits tobits acc x : ℕ) : ℕ :=
  ((acc <<< frombits) ||| x) &&& ((1 <<< (frombits + tobits - 1)) - 1)

/-- The outer loop of `ConvertBits` over the input: `out`, `acc` and `bits` at its end. -/
def convertBitsLoop (frombits tobits : ℕ) : (acc bits : ℕ) → List ℕ → List ℕ → List ℕ × ℕ × ℕ
  | acc, bits, out, [] => (out, acc, bits)
  | acc, bits, out, x :: xs =>
    let acc := pushBits frombits tobits acc x
    let bits := bits + frombits
    let (out, bits) := drainBits tobits acc bits bits out
    convertBitsLoop frombits tobits acc bits out xs

/-- `ConvertBits<frombits, tobits, pad>(out, it, end)`: what it returns, and `out`. -/
def ConvertBits (frombits tobits : ℕ) (pad : Bool) (out input : List ℕ) : Bool × List ℕ :=
  let maxv := (1 <<< tobits) - 1
  let (out, acc, bits) := convertBitsLoop frombits tobits 0 0 out input
  if pad then (true, if bits ≠ 0 then out ++ [(acc <<< (tobits - bits)) &&& maxv] else out)
  else if bits ≥ frombits ∨ (acc <<< (tobits - bits)) &&& maxv ≠ 0 then (false, out)
  else (true, out)

/-- `x & maxv` keeps the low `n` bits. -/
theorem and_mask_eq_mod (x n : ℕ) : x &&& ((1 <<< n) - 1) = x % 2 ^ n := by
  rw [Nat.one_shiftLeft, Nat.and_two_pow_sub_one_eq_mod]

/-- The last group with padding: the `bits` low bits of `acc` moved to the top. -/
theorem shiftLeft_and_mask {acc bits tobits : ℕ} (hbits : bits ≤ tobits) :
    (acc <<< (tobits - bits)) &&& ((1 <<< tobits) - 1) = acc % 2 ^ bits * 2 ^ (tobits - bits) := by
  rw [and_mask_eq_mod, Nat.shiftLeft_eq, mul_two_pow_mod_two_pow hbits]

/-- With fewer than `tobits` bits held, a new group enters below them unchanged. -/
theorem pushBits_mod {frombits tobits acc bits x : ℕ} (hbits : bits < tobits) (hx : x < 2 ^ frombits) :
    pushBits frombits tobits acc x % 2 ^ (bits + frombits) = acc % 2 ^ bits * 2 ^ frombits + x := by
  have hdvd : 2 ^ (bits + frombits) ∣ 2 ^ (frombits + tobits - 1) := Nat.pow_dvd_pow 2 (by omega)
  rw [pushBits, and_mask_eq_mod, mul_two_pow_or_of_lt acc hx, Nat.mod_mod_of_dvd _ hdvd,
    mul_two_pow_add_mod hx]

theorem convertBitsLoop_cons (frombits tobits acc bits : ℕ) (out : List ℕ) (x : ℕ) (xs : List ℕ) :
    convertBitsLoop frombits tobits acc bits out (x :: xs) =
      convertBitsLoop frombits tobits (pushBits frombits tobits acc x)
        (drainBits tobits (pushBits frombits tobits acc x) (bits + frombits) (bits + frombits) out).2
        (drainBits tobits (pushBits frombits tobits acc x) (bits + frombits) (bits + frombits) out).1 xs :=
  rfl

/-! ## The loop invariant -/

/-- The groups `new` of `tobits` bits, followed by the low `bits` bits of `acc`, spell
the bit string of the `frombits`-bit groups `input`. -/
structure Regrouped (frombits tobits : ℕ) (input new : List ℕ) (acc bits : ℕ) : Prop where
  bits_lt : bits < tobits
  length : new.length * tobits + bits = input.length * frombits
  lt : ∀ g ∈ new, g < 2 ^ tobits
  value : beValue (2 ^ tobits) new * 2 ^ bits + acc % 2 ^ bits = beValue (2 ^ frombits) input

theorem Regrouped.nil {frombits tobits : ℕ} (ht : 0 < tobits) : Regrouped frombits tobits [] [] 0 0 :=
  ⟨ht, by simp, fun _ h => absurd h List.not_mem_nil, by simp⟩

section Drain

variable {tobits : ℕ}

/-- The inner loop cuts the low `bits` bits of `acc` into groups of `tobits` bits and
a rest of fewer than `tobits` bits. -/
theorem drainBits_spec (ht : 0 < tobits) (acc : ℕ) :
    ∀ (fuel bits : ℕ) (out : List ℕ), bits ≤ fuel →
      ∃ new, (drainBits tobits acc fuel bits out).1 = out ++ new ∧
        (drainBits tobits acc fuel bits out).2 < tobits ∧
        new.length * tobits + (drainBits tobits acc fuel bits out).2 = bits ∧
        (∀ g ∈ new, g < 2 ^ tobits) ∧
        beValue (2 ^ tobits) new * 2 ^ (drainBits tobits acc fuel bits out).2 +
          acc % 2 ^ (drainBits tobits acc fuel bits out).2 = acc % 2 ^ bits := by
  intro fuel
  induction fuel with
  | zero =>
    intro bits out hbits
    obtain rfl : bits = 0 := by omega
    rw [drainBits]
    exact ⟨[], (List.append_nil out).symm, ht, by simp, fun _ h => absurd h List.not_mem_nil, by simp⟩
  | succ fuel ih =>
    intro bits out hbits
    by_cases hgo : bits ≥ tobits
    case neg =>
      rw [drainBits, if_neg hgo]
      exact ⟨[], (List.append_nil out).symm, by omega, by simp, fun _ h => absurd h List.not_mem_nil, by simp⟩
    case pos =>
      -- the group taken in this round, then the rounds after it
      set g := (acc >>> (bits - tobits)) &&& ((1 <<< tobits) - 1) with hg
      have hgval : g = acc / 2 ^ (bits - tobits) % 2 ^ tobits := by
        rw [hg, and_mask_eq_mod, Nat.shiftRight_eq_div_pow]
      rw [drainBits, if_pos hgo]
      obtain ⟨new, hout, hlt, hlen, hnew, hvalue⟩ := ih (bits - tobits) (out ++ [g]) (by omega)
      set rest := (drainBits tobits acc fuel (bits - tobits) (out ++ [g])).2
      refine ⟨g :: new, by rw [hout, List.append_assoc, List.singleton_append], hlt,
        by rw [List.length_cons, add_mul, one_mul]; omega, ?_, ?_⟩
      · intro y hy
        rcases List.mem_cons.mp hy with rfl | hy
        · rw [hgval]
          exact Nat.mod_lt _ (by positivity)
        · exact hnew y hy
      · -- the group sits right above the rest of this round
        have hpow : (2 ^ tobits) ^ new.length * 2 ^ rest = 2 ^ (bits - tobits) := by
          rw [← pow_mul, ← pow_add]
          congr 1
          rw [mul_comm]
          exact hlen
        have hsplit := mod_two_pow_add acc (bits - tobits) tobits
        rw [Nat.sub_add_cancel hgo] at hsplit
        rw [hsplit, beValue_cons, ← hgval, add_mul, mul_assoc, hpow, add_assoc, hvalue]

end Drain

section Loop

variable {frombits tobits : ℕ}

/-- One round of the outer loop keeps the invariant. -/
theorem Regrouped.push (ht : 0 < tobits) {input new : List ℕ} {acc bits x : ℕ}
    (h : Regrouped frombits tobits input new acc bits) (hx : x < 2 ^ frombits) (out : List ℕ) :
    ∃ new', (drainBits tobits (pushBits frombits tobits acc x) (bits + frombits) (bits + frombits) out).1 =
        out ++ new' ∧
      Regrouped frombits tobits (input ++ [x]) (new ++ new') (pushBits frombits tobits acc x)
        (drainBits tobits (pushBits frombits tobits acc x) (bits + frombits) (bits + frombits) out).2 := by
  obtain ⟨new', hout, hlt, hlen, hnew, hvalue⟩ :=
    drainBits_spec ht (pushBits frombits tobits acc x) (bits + frombits) (bits + frombits) out le_rfl
  set acc' := pushBits frombits tobits acc x
  set rest := (drainBits tobits acc' (bits + frombits) (bits + frombits) out).2
  have hlen0 := h.length
  refine ⟨new', hout, ⟨hlt, ?_, ?_, ?_⟩⟩
  · rw [List.length_append, List.length_append, List.length_singleton, add_mul, add_mul, one_mul]
    omega
  · intro g hg
    rcases List.mem_append.mp hg with hg | hg
    · exact h.lt g hg
    · exact hnew g hg
  · have hpow : (2 ^ tobits) ^ new'.length * 2 ^ rest = 2 ^ (bits + frombits) := by
      rw [← pow_mul, ← pow_add, mul_comm tobits, hlen]
    calc beValue (2 ^ tobits) (new ++ new') * 2 ^ rest + acc' % 2 ^ rest
        = beValue (2 ^ tobits) new * ((2 ^ tobits) ^ new'.length * 2 ^ rest) +
            (beValue (2 ^ tobits) new' * 2 ^ rest + acc' % 2 ^ rest) := by
          rw [beValue_append]
          ring
      _ = beValue (2 ^ tobits) new * 2 ^ (bits + frombits) + acc' % 2 ^ (bits + frombits) := by
          rw [hpow, hvalue]
      _ = (beValue (2 ^ tobits) new * 2 ^ bits + acc % 2 ^ bits) * 2 ^ frombits + x := by
          rw [pushBits_mod h.bits_lt hx, pow_add]
          ring
      _ = beValue (2 ^ frombits) (input ++ [x]) := by
          rw [h.value, beValue_append_singleton]

/-- The outer loop keeps the invariant over the whole input. -/
theorem convertBitsLoop_spec (ht : 0 < tobits) :
    ∀ (xs input new out : List ℕ) (acc bits : ℕ), (∀ x ∈ xs, x < 2 ^ frombits) →
      Regrouped frombits tobits input new acc bits →
      ∃ new', (convertBitsLoop frombits tobits acc bits out xs).1 = out ++ new' ∧
        Regrouped frombits tobits (input ++ xs) (new ++ new')
          (convertBitsLoop frombits tobits acc bits out xs).2.1
          (convertBitsLoop frombits tobits acc bits out xs).2.2
  | [], input, new, out, acc, bits, _, h => by
    refine ⟨[], (List.append_nil out).symm, ?_⟩
    rw [List.append_nil, List.append_nil]
    exact h
  | x :: xs, input, new, out, acc, bits, hxs, h => by
    obtain ⟨new1, hout1, h1⟩ := h.push ht (hxs x (List.mem_cons_self ..)) out
    obtain ⟨new2, hout2, h2⟩ := convertBitsLoop_spec ht xs _ _
      (drainBits tobits (pushBits frombits tobits acc x) (bits + frombits) (bits + frombits) out).1 _ _
      (fun y hy => hxs y (List.mem_cons_of_mem x hy)) h1
    refine ⟨new1 ++ new2, ?_, ?_⟩
    · rw [convertBitsLoop_cons, hout2, hout1, List.append_assoc]
    · rw [convertBitsLoop_cons]
      rw [List.append_assoc, List.singleton_append, List.append_assoc] at h2
      exact h2

/-- `ConvertBits` with padding appends the groups of the input's bits followed by fewer
than `tobits` zero bits. -/
theorem ConvertBits_pad (ht : 0 < tobits) (out input : List ℕ) (hin : ∀ x ∈ input, x < 2 ^ frombits) :
    ∃ groups padbits, ConvertBits frombits tobits true out input = (true, out ++ groups) ∧
      padbits < tobits ∧ groups.length * tobits = input.length * frombits + padbits ∧
      (∀ g ∈ groups, g < 2 ^ tobits) ∧
      beValue (2 ^ tobits) groups = beValue (2 ^ frombits) input * 2 ^ padbits := by
  obtain ⟨new, hout, h⟩ := convertBitsLoop_spec ht input [] [] out 0 0 hin (Regrouped.nil ht)
  rw [List.nil_append, List.nil_append] at h
  rcases hloop : convertBitsLoop frombits tobits 0 0 out input with ⟨out', acc, bits⟩
  rw [hloop] at hout h
  dsimp only at hout h
  subst hout
  have hlen := h.length
  have hvalue := h.value
  have hbits := h.bits_lt
  simp only [ConvertBits, hloop, if_true]
  by_cases hzero : bits = 0
  case pos =>
    -- nothing is left over
    subst hzero
    refine ⟨new, 0, by rw [if_neg (not_not.mpr rfl)], ht, by omega, h.lt, ?_⟩
    simpa [Nat.mod_one] using hvalue
  case neg =>
    -- the bits left over, filled with zeros to a last group
    refine ⟨new ++ [acc % 2 ^ bits * 2 ^ (tobits - bits)], tobits - bits, ?_, by omega, ?_, ?_, ?_⟩
    · rw [if_pos hzero, shiftLeft_and_mask hbits.le, List.append_assoc]
    · rw [List.length_append, List.length_singleton, add_mul, one_mul]
      omega
    · intro g hg
      rcases List.mem_append.mp hg with hg | hg
      · exact h.lt g hg
      · rw [List.mem_singleton.mp hg]
        calc acc % 2 ^ bits * 2 ^ (tobits - bits) < 2 ^ bits * 2 ^ (tobits - bits) :=
              Nat.mul_lt_mul_of_pos_right (Nat.mod_lt _ (by positivity)) (by positivity)
          _ = 2 ^ tobits := by rw [← pow_add, Nat.add_sub_cancel' hbits.le]
    · have hpow : 2 ^ tobits = 2 ^ bits * 2 ^ (tobits - bits) := by
        rw [← pow_add, Nat.add_sub_cancel' hbits.le]
      rw [beValue_append_singleton, ← hvalue, hpow]
      ring

/-- `ConvertBits` without padding appends the full groups, and succeeds exactly when
the bits left over are fewer than `frombits` and all zero. -/
theorem ConvertBits_nopad (ht : 0 < tobits) (out input : List ℕ) (hin : ∀ x ∈ input, x < 2 ^ frombits) :
    ∃ new acc bits, Regrouped frombits tobits input new acc bits ∧
      ConvertBits frombits tobits false out input = (decide (bits < frombits ∧ acc % 2 ^ bits = 0), out ++ new) := by
  obtain ⟨new, hout, h⟩ := convertBitsLoop_spec ht input [] [] out 0 0 hin (Regrouped.nil ht)
  rw [List.nil_append, List.nil_append] at h
  rcases hloop : convertBitsLoop frombits tobits 0 0 out input with ⟨out', acc, bits⟩
  rw [hloop] at hout h
  dsimp only at hout h
  subst hout
  refine ⟨new, acc, bits, h, ?_⟩
  have hpos : 0 < 2 ^ (tobits - bits) := by positivity
  simp only [ConvertBits, hloop, Bool.false_eq_true, if_false, shiftLeft_and_mask h.bits_lt.le]
  by_cases hok : bits < frombits ∧ acc % 2 ^ bits = 0
  case pos =>
    rw [if_neg (by rw [hok.2, zero_mul]; omega), decide_eq_true hok]
  case neg =>
    have hfail : bits ≥ frombits ∨ acc % 2 ^ bits * 2 ^ (tobits - bits) ≠ 0 := by
      by_cases hb : bits < frombits
      case pos => exact Or.inr (Nat.mul_ne_zero (fun h0 => hok ⟨hb, h0⟩) hpos.ne')
      case neg => exact Or.inl (by omega)
    rw [if_pos hfail, decide_eq_false hok]

end Loop

/-- Bytes cut into 5-bit groups with padding come back from the groups without
padding. -/
theorem ConvertBits_8_5_inverse {bytes : List ℕ} (hbytes : ∀ x ∈ bytes, x < 256) (out : List ℕ) :
    ∃ groups, ConvertBits 8 5 true out bytes = (true, out ++ groups) ∧ (∀ g ∈ groups, g < 32) ∧
      groups.length = (bytes.length * 8 + 4) / 5 ∧ ConvertBits 5 8 false [] groups = (true, bytes) := by
  obtain ⟨groups, padbits, henc, hpad, hlen, hlt, hvalue⟩ :=
    @ConvertBits_pad 8 5 (by norm_num) out bytes hbytes
  obtain ⟨back, acc, bits, hre, hdec⟩ :=
    @ConvertBits_nopad 5 8 (by norm_num) [] groups hlt
  -- the lengths give as many bytes back as were encoded, and the padding bits back
  have hre_len := hre.length
  have hbits := hre.bits_lt
  have hback_len : back.length = bytes.length := by omega
  obtain rfl : bits = padbits := by omega
  have hv := hre.value
  rw [hvalue, Nat.mul_comm (beValue (2 ^ 8) back), Nat.mul_comm (beValue (2 ^ 8) bytes)] at hv
  -- the padding bits are zero, and the bytes denote the same number
  have hrem : acc % 2 ^ bits = 0 := by
    have hmod := congrArg (· % 2 ^ bits) hv
    simp only [Nat.mul_add_mod, Nat.mod_mod, Nat.mul_mod_right] at hmod
    exact hmod
  have hback : beValue (2 ^ 8) back = beValue (2 ^ 8) bytes := by
    rw [hrem, add_zero] at hv
    exact Nat.eq_of_mul_eq_mul_left (by positivity) hv
  have hback_lt := hre.lt
  refine ⟨groups, henc, hlt, by omega, ?_⟩
  rw [hdec, decide_eq_true ⟨by omega, hrem⟩, List.nil_append,
    beValue_inj (by norm_num) hback_len hback_lt hbytes hback]

example : ConvertBits 8 5 true [0] [255] = (true, [0, 31, 28]) ∧
    ConvertBits 5 8 false [] [31, 28] = (true, [255]) := by decide

/-- Without padding, 5-bit groups are accepted exactly when the bits beyond the last
whole byte are fewer than five and all zero; cutting the bytes read back into 5-bit
groups with padding then gives the groups again. -/
theorem ConvertBits_5_8_canonical {w : List ℕ} (hw : ∀ x ∈ w, x < 32) :
    ((ConvertBits 5 8 false [] w).1 = true ↔
        w.length * 5 % 8 < 5 ∧ beValue 32 w % 2 ^ (w.length * 5 % 8) = 0) ∧
      ((ConvertBits 5 8 false [] w).1 = true → ConvertBits 8 5 true [] (ConvertBits 5 8 false [] w).2 = (true, w)) := by
  obtain ⟨back, acc, bits, hre, hdec⟩ := @ConvertBits_nopad 5 8 (by norm_num) [] w hw
  rw [hdec, List.nil_append]
  have hlen := hre.length
  have hbits := hre.bits_lt
  have hmod : w.length * 5 % 8 = bits := by omega
  have hv := hre.value
  -- below the whole bytes, the groups hold the bits left in `acc`
  have hrem : beValue (2 ^ 5) w % 2 ^ bits = acc % 2 ^ bits := by
    rw [← hv, Nat.add_mod, Nat.mul_mod_left, Nat.zero_add, Nat.mod_mod, Nat.mod_mod]
  refine ⟨by rw [hmod, show (32 : ℕ) = 2 ^ 5 from rfl, hrem, decide_eq_true_iff], fun hok => ?_⟩
  rw [decide_eq_true_iff] at hok
  obtain ⟨groups, padbits, henc, hpad, hglen, hglt, hgval⟩ := @ConvertBits_pad 8 5 (by norm_num) [] back hre.lt
  rw [henc, List.nil_append]
  -- as many groups as there were, with as many padding bits
  have hglen' : groups.length = w.length := by omega
  obtain rfl : padbits = bits := by omega
  have hval : beValue (2 ^ 5) groups = beValue (2 ^ 5) w := by
    rw [hgval, ← hv, hok.2, Nat.add_zero]
  rw [beValue_inj (by norm_num) hglen' hglt hw hval]

theorem ConvertBits_8_5_round_trip :
    (∀ v : List ℕ, (∀ x ∈ v, x < 256) → ∃ w, ConvertBits 8 5 true [] v = (true, w) ∧
        w.length = (8 * v.length + 4) / 5 ∧ ConvertBits 5 8 false [] w = (true, v)) ∧
      ∀ w : List ℕ, (∀ x ∈ w, x < 32) →
        ((ConvertBits 5 8 false [] w).1 = true ↔
          w.length * 5 % 8 < 5 ∧ beValue 32 w % 2 ^ (w.length * 5 % 8) = 0) ∧
        ((ConvertBits 5 8 false [] w).1 = true →
          ConvertBits 8 5 true [] (ConvertBits 5 8 false [] w).2 = (true, w)) := by
  refine ⟨fun v hv => ?_, fun w hw => ConvertBits_5_8_canonical hw⟩
  obtain ⟨w, henc, -, hlen, hdec⟩ := ConvertBits_8_5_inverse hv []
  exact ⟨w, henc, by rw [hlen, Nat.mul_comm], hdec⟩


theorem ConvertBits_8_5_round_trip_bytes :
    (∃ w, ConvertBits 8 5 true [] [255, 0, 17] = (true, w) ∧
        w.length = (8 * [255, 0, 17].length + 4) / 5 ∧ ConvertBits 5 8 false [] w = (true, [255, 0, 17])) ∧
      ((ConvertBits 5 8 false [] [31, 28]).1 = true ↔
          [31, 28].length * 5 % 8 < 5 ∧ beValue 32 [31, 28] % 2 ^ ([31, 28].length * 5 % 8) = 0) ∧
      ConvertBits 8 5 true [] (ConvertBits 5 8 false [] [31, 28]).2 = (true, [31, 28]) :=
  ⟨ConvertBits_8_5_round_trip.1 [255, 0, 17] (by decide),
    (ConvertBits_8_5_round_trip.2 [31, 28] (by decide)).1,
    (ConvertBits_8_5_round_trip.2 [31, 28] (by decide)).2 (by decide)⟩

end BitcoinPQ

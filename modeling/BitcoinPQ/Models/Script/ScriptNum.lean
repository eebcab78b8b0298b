import Mathlib.Data.Nat.Bitwise
import BitcoinPQ.Models.Script.Script

/-!
# Script numbers

`CScriptNum::serialize` and the decoding constructor `CScriptNum(vch, fRequireMinimal,
nMaxNumSize)` of `script/script.h`. A number is written as its magnitude's
little-endian digits, with the sign in the top bit of the last byte and a byte of its
own when that bit is taken. Every `int64` but `INT64_MIN` serializes to at most eight
bytes that the minimal decoder accepts and reads back as the number
(`ofVch_serialize`), and a minimally encoded vector is the serialization of what it
decodes to (`serialize_set_vch`): on minimal vectors the encoding is a bijection.

`set_vch` is modelled over the integers; on the vectors of up to eight bytes that
every caller passes, this is the value the source's 64-bit shifts compute.
-/

namespace BitcoinPQ

namespace CScriptNum

open Wire

/-! ## Bytes -/

/-- `b & 0x80` tests the sign bit. -/
theorem and_0x80_bne_zero (b : UInt8) : (b &&& 0x80 != 0) = decide (0x80 ≤ b.toNat) := by
  have hb := b.toNat_lt
  rw [Bool.eq_iff_iff, bne_iff_ne, ne_eq, ← UInt8.toNat_inj, UInt8.toNat_and,
    show (0x80 : UInt8).toNat = 2 ^ 7 from rfl, Nat.and_two_pow, UInt8.toNat_zero,
    Nat.testBit_eq_decide_div_mod_eq]
  by_cases h : 0x80 ≤ b.toNat
  · have h1 : b.toNat / 128 % 2 = 1 := by omega
    simp [h, h1]
  · have h0 : b.toNat / 128 % 2 = 0 := by omega
    simp [h, h0]

/-- `b & 0x7f` is the magnitude part of a byte. -/
theorem toNat_and_0x7f (b : UInt8) : (b &&& 0x7f).toNat = b.toNat % 128 := by
  rw [UInt8.toNat_and, show (0x7f : UInt8).toNat = 2 ^ 7 - 1 from rfl, Nat.and_two_pow_sub_one_eq_mod]

/-- `b & 0x7f` tests the magnitude part of a byte. -/
theorem and_0x7f_bne_zero (b : UInt8) : (b &&& 0x7f != 0) = decide (b.toNat % 128 ≠ 0) := by
  rw [Bool.eq_iff_iff, bne_iff_ne, ne_eq, ← UInt8.toNat_inj, toNat_and_0x7f, UInt8.toNat_zero,
    decide_eq_true_iff]

/-- Setting the sign bit of a byte below `0x80` adds `0x80`. -/
theorem toNat_or_0x80 {b : UInt8} (h : b.toNat < 0x80) : (b ||| 0x80).toNat = b.toNat + 0x80 := by
  rw [UInt8.toNat_or, show (0x80 : UInt8).toNat = 2 ^ 7 * 1 from rfl, Nat.or_comm,
    ← Nat.two_pow_add_eq_or_of_lt (show b.toNat < 2 ^ 7 from h)]
  omega

/-! ## The magnitude -/

theorem absBytes_zero : absBytes 0 = [] := by
  rw [absBytes, if_pos rfl]

theorem absBytes_of_pos {n : Nat} (h : 0 < n) :
    absBytes n = UInt8.ofNat (n % 256) :: absBytes (n / 256) := by
  rw [absBytes, if_neg (by omega)]

/-- The `while (absvalue)` loop writes the magnitude's digits. -/
theorem leValue_absBytes (n : Nat) : leValue (absBytes n) = n := by
  induction n using Nat.strongRecOn with
  | ind n ih =>
    rcases Nat.eq_zero_or_pos n with rfl | hn
    · rw [absBytes_zero, leValue_nil]
    · rw [absBytes_of_pos hn, leValue_cons, ih (n / 256) (by omega), UInt8.toNat_ofNat']
      simp only [Nat.reducePow, Nat.mod_mod]
      omega

/-- A number's digits end in a non-zero byte. -/
theorem getLast_absBytes_ne_zero (n : Nat) : ∀ b ∈ (absBytes n).getLast?, b ≠ 0 := by
  induction n using Nat.strongRecOn with
  | ind n ih =>
    intro b hb
    rcases Nat.eq_zero_or_pos n with rfl | hn
    · simp [absBytes_zero] at hb
    · rw [absBytes_of_pos hn] at hb
      rcases Nat.eq_zero_or_pos (n / 256) with hhigh | hhigh
      · -- a single digit: the number itself
        rw [hhigh, absBytes_zero, List.getLast?_singleton, Option.mem_some_iff] at hb
        rw [← hb, ne_eq, ← UInt8.toNat_inj, UInt8.toNat_ofNat', UInt8.toNat_zero]
        simp only [Nat.reducePow, Nat.mod_mod]
        omega
      · have hne : absBytes (n / 256) ≠ [] := by
          intro hnil
          have := leValue_absBytes (n / 256)
          rw [hnil, leValue_nil] at this
          omega
        rw [List.getLast?_cons, List.getLast?_eq_some_getLast hne, Option.getD_some] at hb
        exact ih (n / 256) (by omega) b (by rw [List.getLast?_eq_some_getLast hne]; exact hb)

/-- Digits ending in a non-zero byte are the digits of their value. -/
theorem absBytes_leValue (bs : List UInt8) (h : ∀ b ∈ bs.getLast?, b ≠ 0) :
    absBytes (leValue bs) = bs := by
  induction bs with
  | nil => rw [leValue_nil, absBytes_zero]
  | cons b bs ih =>
    have hb := b.toNat_lt
    -- the tail spells its own value: it is empty, or ends where `b :: bs` ends
    have htail : absBytes (leValue bs) = bs := by
      rcases List.eq_nil_or_concat bs with rfl | ⟨init, c, rfl⟩
      · rw [leValue_nil, absBytes_zero]
      · refine ih fun d hd => h d ?_
        rw [List.getLast?_cons, Option.mem_def.mp hd]
        rfl
    have hpos : 0 < leValue (b :: bs) := by
      rw [leValue_cons]
      rcases Nat.eq_zero_or_pos (leValue bs) with hzero | hzero
      · -- an empty tail leaves `b` last, and non-zero
        have hnil : bs = [] := by rw [← htail, hzero, absBytes_zero]
        have hb0 : b ≠ 0 := h b (by rw [hnil]; rfl)
        have : b.toNat ≠ 0 := fun h0 => hb0 (UInt8.toNat_inj.mp h0)
        omega
      · omega
    rw [absBytes_of_pos hpos, leValue_cons,
      show (b.toNat + 256 * leValue bs) / 256 = leValue bs by omega, htail,
      show (b.toNat + 256 * leValue bs) % 256 = b.toNat by omega, UInt8.ofNat_toNat]

/-- A positive magnitude's digits end in a non-zero digit. -/
theorem absBytes_eq_concat {n : Nat} (hn : 0 < n) :
    ∃ init last, absBytes n = init ++ [last] ∧ 0 < last.toNat := by
  rcases List.eq_nil_or_concat (absBytes n) with h | ⟨init, last, h⟩
  · have hval := leValue_absBytes n
    rw [h, leValue_nil] at hval
    omega
  · rw [List.concat_eq_append] at h
    have hlast : last ≠ 0 := getLast_absBytes_ne_zero n last (by rw [h, List.getLast?_concat]; rfl)
    refine ⟨init, last, h, Nat.pos_of_ne_zero fun h0 => hlast (UInt8.toNat_inj.mp h0)⟩

/-! ## Decoding -/

/-- `set_vch` reads the last byte's top bit as the sign, and the rest as the magnitude. -/
theorem set_vch_append (init : List UInt8) (last : UInt8) :
    set_vch (init ++ [last]) =
      if 0x80 ≤ last.toNat then -(leValue (init ++ [last &&& 0x7f]) : Int)
      else (leValue (init ++ [last]) : Int) := by
  have hl := last.toNat_lt
  rw [set_vch, List.getLast?_concat]
  dsimp only
  rw [and_0x80_bne_zero]
  by_cases hs : 0x80 ≤ last.toNat
  · rw [if_pos (decide_eq_true hs), if_pos hs, leValue_append, leValue_append, List.length_append,
      List.length_singleton, Nat.add_sub_cancel]
    simp only [leValue_cons, leValue_nil, toNat_and_0x7f, Nat.mul_zero, Nat.add_zero]
    -- clearing the sign bit takes `0x80` off the last byte
    have hsplit : 256 ^ init.length * last.toNat =
        256 ^ init.length * (last.toNat % 128) + 0x80 * 256 ^ init.length := by
      have hbit : last.toNat = last.toNat % 128 + 0x80 := by omega
      nth_rewrite 1 [hbit]
      rw [Nat.mul_add, Nat.mul_comm _ 0x80]
    rw [hsplit]
    congr 2
    omega
  · rw [if_neg (by simpa using hs), if_neg hs]

/-- The minimal-encoding test looks at the last byte, and at the one before it. -/
theorem IsMinimal_append (init : List UInt8) (last : UInt8) :
    IsMinimal (init ++ [last]) = true ↔
      last.toNat % 128 ≠ 0 ∨ ∃ prev ∈ init.getLast?, 0x80 ≤ prev.toNat := by
  rw [IsMinimal, List.reverse_append, List.reverse_singleton, List.singleton_append]
  rcases List.eq_nil_or_concat init with rfl | ⟨init', prev, rfl⟩
  · simp [and_0x7f_bne_zero]
  · rw [List.concat_eq_append, List.reverse_append, List.reverse_singleton, List.singleton_append,
      List.getLast?_concat]
    simp [and_0x7f_bne_zero, and_0x80_bne_zero]

/-! ## Encoding -/

/-- `serialize` over the magnitude's digits: a sign byte after a last digit with its
top bit set, and otherwise the sign folded into the last digit. -/
theorem serialize_of_absBytes {v : Int} (hv : v ≠ 0) {init : List UInt8} {last : UInt8}
    (h : absBytes v.natAbs = init ++ [last]) :
    serialize v = if 0x80 ≤ last.toNat then init ++ [last, if v < 0 then 0x80 else 0]
      else init ++ [if v < 0 then last ||| 0x80 else last] := by
  rw [serialize, if_neg hv]
  dsimp only
  rw [h, List.getLast?_concat, Option.getD_some, and_0x80_bne_zero]
  by_cases hs : 0x80 ≤ last.toNat
  · rw [if_pos (decide_eq_true hs), if_pos hs, List.append_assoc, List.singleton_append]
    by_cases hneg : v < 0 <;> simp [hneg]
  · rw [if_neg (by simpa using hs), if_neg hs]
    by_cases hneg : v < 0 <;> simp [hneg]

/-- `serialize` of a magnitude with digits `init ++ [last]` and a sign. -/
theorem serialize_signed {m : Nat} {init : List UInt8} {last : UInt8}
    (habs : absBytes m = init ++ [last]) (neg : Bool) :
    serialize (if neg then -(m : Int) else m) =
      if 0x80 ≤ last.toNat then init ++ [last, if neg then 0x80 else 0]
      else init ++ [if neg then last ||| 0x80 else last] := by
  have hm : 0 < m := by
    rcases Nat.eq_zero_or_pos m with rfl | hm
    · rw [absBytes_zero] at habs
      simp at habs
    · exact hm
  cases neg with
  | false =>
    simp only [Bool.false_eq_true, if_false]
    have hsign : ¬(m : Int) < 0 := by omega
    rw [serialize_of_absBytes (by omega) (by simpa using habs)]
    simp only [hsign, if_false]
  | true =>
    simp only [if_true]
    have hsign : -(m : Int) < 0 := by omega
    rw [serialize_of_absBytes (by omega) (by simpa using habs)]
    simp only [hsign, if_true]

theorem serialize_zero : serialize 0 = [] := by
  rw [serialize, if_pos rfl]

/-- `set_vch` undoes `serialize`. -/
theorem set_vch_serialize (v : Int) : set_vch (serialize v) = v := by
  rcases eq_or_ne v 0 with rfl | hv
  · rw [serialize_zero]
    rfl
  obtain ⟨init, last, habs, -⟩ := absBytes_eq_concat (Int.natAbs_pos.mpr hv)
  have hval : (v.natAbs : Int) = leValue (init ++ [last]) := by rw [← habs, leValue_absBytes]
  have hl := last.toNat_lt
  rw [serialize_of_absBytes hv habs]
  split_ifs with hs hneg hneg
  · -- a sign byte `0x80` after the magnitude
    rw [← List.singleton_append, ← List.append_assoc, set_vch_append, if_pos (by decide),
      show (0x80 : UInt8) &&& 0x7f = 0 from rfl, leValue_append_zero]
    omega
  · rw [← List.singleton_append, ← List.append_assoc, set_vch_append, if_neg (by decide),
      leValue_append_zero]
    omega
  · -- the sign folded into the last digit
    have hor := toNat_or_0x80 (Nat.lt_of_not_le hs)
    have hmag : (last ||| 0x80) &&& 0x7f = last := by
      rw [← UInt8.toNat_inj, toNat_and_0x7f, hor]
      omega
    rw [set_vch_append, if_pos (by omega), hmag]
    omega
  · rw [set_vch_append, if_neg hs]
    omega

/-- What `serialize` writes passes the minimal-encoding test. -/
theorem IsMinimal_serialize (v : Int) : IsMinimal (serialize v) = true := by
  rcases eq_or_ne v 0 with rfl | hv
  · rw [serialize_zero]
    rfl
  obtain ⟨init, last, habs, hlast⟩ := absBytes_eq_concat (Int.natAbs_pos.mpr hv)
  have hl := last.toNat_lt
  rw [serialize_of_absBytes hv habs]
  by_cases hs : 0x80 ≤ last.toNat
  · -- a sign byte after a last digit that carries the top bit
    rw [if_pos hs, ← List.singleton_append, ← List.append_assoc, IsMinimal_append]
    exact Or.inr ⟨last, List.getLast?_concat .., hs⟩
  · -- the sign folded into a last digit that is not zero
    rw [if_neg hs, IsMinimal_append]
    left
    split_ifs with hneg
    · rw [toNat_or_0x80 (by omega)]
      omega
    · omega

/-- A magnitude is at least its last digit's place value. -/
theorem place_le_of_absBytes {m : Nat} {init : List UInt8} {last : UInt8}
    (habs : absBytes m = init ++ [last]) : 256 ^ init.length * last.toNat ≤ m := by
  have h := leValue_absBytes m
  rw [habs, leValue_append, leValue_cons, leValue_nil, Nat.mul_zero, Nat.add_zero] at h
  omega

/-- The digits of a magnitude below `c * 256 ^ k` whose last digit is at least `c` are
`k` or fewer. -/
theorem length_lt_of_absBytes {m k c : Nat} {init : List UInt8} {last : UInt8}
    (habs : absBytes m = init ++ [last]) (hc : c ≤ last.toNat) (hm : m < c * 256 ^ k) :
    init.length < k := by
  have hplace : c * 256 ^ init.length < c * 256 ^ k := by
    have h1 := place_le_of_absBytes habs
    have h2 : 256 ^ init.length * c ≤ 256 ^ init.length * last.toNat := Nat.mul_le_mul_left _ hc
    rw [Nat.mul_comm] at h2
    omega
  exact (Nat.pow_lt_pow_iff_right (by decide)).mp (Nat.lt_of_mul_lt_mul_left hplace)

/-- Every `int64` but `INT64_MIN` serializes to at most eight bytes. -/
theorem length_serialize_le {v : Int} (hlo : -2 ^ 63 < v) (hhi : v < 2 ^ 63) :
    (serialize v).length ≤ 8 := by
  rcases eq_or_ne v 0 with rfl | hv
  · rw [serialize_zero]
    simp
  obtain ⟨init, last, habs, hlast⟩ := absBytes_eq_concat (Int.natAbs_pos.mpr hv)
  have h63 : (2 : Nat) ^ 63 = 128 * 256 ^ 7 := rfl
  by_cases hs : 0x80 ≤ last.toNat
  · -- a sign byte after the last digit, which takes the top bit below `2 ^ 63`
    have hlen := length_lt_of_absBytes habs hs (show v.natAbs < 0x80 * 256 ^ 7 by omega)
    rw [serialize_of_absBytes hv habs, if_pos hs, List.length_append]
    simp only [List.length_cons, List.length_nil]
    omega
  · -- no sign byte: at most eight digits
    have hlen := length_lt_of_absBytes habs hlast (show v.natAbs < 1 * 256 ^ 8 by omega)
    rw [serialize_of_absBytes hv habs, if_neg hs, List.length_append, List.length_singleton]
    omega

/-- A minimally encoded vector is the serialization of the number it decodes to. -/
theorem serialize_set_vch {vch : List UInt8} (h : IsMinimal vch = true) :
    serialize (set_vch vch) = vch := by
  rcases List.eq_nil_or_concat vch with rfl | ⟨init, b, rfl⟩
  · rfl
  rw [List.concat_eq_append] at h ⊢
  rw [IsMinimal_append] at h
  have hb := b.toNat_lt
  have hc : (b &&& 0x7f).toNat = b.toNat % 128 := toNat_and_0x7f b
  -- the magnitude: `init` followed by `b` without its sign bit
  have hset : set_vch (init ++ [b]) =
      if 0x80 ≤ b.toNat then -(leValue (init ++ [b &&& 0x7f]) : Int)
      else (leValue (init ++ [b &&& 0x7f]) : Int) := by
    rw [set_vch_append]
    by_cases hs : 0x80 ≤ b.toNat
    · rw [if_pos hs, if_pos hs]
    · have hbc : b &&& 0x7f = b := by
        rw [← UInt8.toNat_inj, hc]
        omega
      rw [if_neg hs, if_neg hs, hbc]
  have hneg : set_vch (init ++ [b]) = if decide (0x80 ≤ b.toNat) then
      -((leValue (init ++ [b &&& 0x7f]) : Nat) : Int) else ((leValue (init ++ [b &&& 0x7f]) : Nat) : Int) := by
    rw [hset]
    by_cases hs : 0x80 ≤ b.toNat <;> simp [hs]
  rw [hneg]
  by_cases hc0 : b.toNat % 128 = 0
  · -- no magnitude in the last byte: the one before carries the top bit
    obtain ⟨prev, hprev, hp⟩ := h.resolve_left (not_not.mpr hc0)
    obtain ⟨init', rfl⟩ := List.getLast?_eq_some_iff.mp hprev
    have hzero : b &&& 0x7f = 0 := by
      rw [← UInt8.toNat_inj, hc, hc0]
      rfl
    have habs : absBytes (leValue (init' ++ [prev] ++ [b &&& 0x7f])) = init' ++ [prev] := by
      rw [hzero, leValue_append_zero]
      refine absBytes_leValue _ fun d hd => ?_
      rw [List.getLast?_concat, Option.mem_some_iff] at hd
      rw [← hd]
      intro h0
      rw [h0] at hp
      exact absurd hp (by decide)
    rw [serialize_signed habs, if_pos hp, List.append_assoc, List.singleton_append]
    congr 3
    by_cases hs : 0x80 ≤ b.toNat
    · rw [if_pos (decide_eq_true hs), ← UInt8.toNat_inj]
      show 128 = b.toNat
      omega
    · rw [if_neg (by simpa using hs), ← UInt8.toNat_inj]
      show 0 = b.toNat
      omega
  · -- the last byte holds the magnitude's last digit
    have habs : absBytes (leValue (init ++ [b &&& 0x7f])) = init ++ [b &&& 0x7f] := by
      refine absBytes_leValue _ fun d hd => ?_
      rw [List.getLast?_concat, Option.mem_some_iff] at hd
      rw [← hd, ne_eq, ← UInt8.toNat_inj, hc]
      exact hc0
    rw [serialize_signed habs, if_neg (by omega)]
    congr 2
    by_cases hs : 0x80 ≤ b.toNat
    · rw [if_pos (decide_eq_true hs), ← UInt8.toNat_inj, toNat_or_0x80 (by omega), hc]
      omega
    · rw [if_neg (by simpa using hs), ← UInt8.toNat_inj, hc]
      omega

/-! ## The decoding constructor -/

/-- The decoding constructor accepts every serialization within its size limit. -/
theorem ofVch_serialize (v : Int) (fRequireMinimal : Bool) {nMaxNumSize : Nat}
    (h : (serialize v).length ≤ nMaxNumSize) :
    ofVch (serialize v) fRequireMinimal nMaxNumSize = some v := by
  rw [ofVch, if_neg (by omega), IsMinimal_serialize, set_vch_serialize]
  simp

/-- What the minimal decoding constructor accepts is the serialization of its value. -/
theorem serialize_ofVch {vch : List UInt8} {nMaxNumSize : Nat} {x : Int}
    (h : ofVch vch true nMaxNumSize = some x) : serialize x = vch := by
  unfold ofVch at h
  split_ifs at h with hlen hmin
  cases h
  exact serialize_set_vch (by simpa using hmin)

theorem serialize_round_trip :
    (∀ v : Int, -2 ^ 63 < v → v < 2 ^ 63 →
        (serialize v).length ≤ 8 ∧ ∀ nMaxNumSize, (serialize v).length ≤ nMaxNumSize →
          ofVch (serialize v) true nMaxNumSize = some v) ∧
      ∀ (vch : List UInt8) (x : Int), vch.length ≤ 4 → ofVch vch true 4 = some x →
        serialize x = vch :=
  ⟨fun v hlo hhi => ⟨length_serialize_le hlo hhi, fun _ h => ofVch_serialize v true h⟩,
    fun _ _ _ h => serialize_ofVch h⟩


theorem serialize_round_trip_two_bytes :
    ((serialize (2 ^ 40 + 3)).length ≤ 8 ∧ ∀ nMaxNumSize, (serialize (2 ^ 40 + 3)).length ≤ nMaxNumSize →
        ofVch (serialize (2 ^ 40 + 3)) true nMaxNumSize = some (2 ^ 40 + 3)) ∧
      serialize (-255) = [0xff, 0x80] :=
  ⟨serialize_round_trip.1 (2 ^ 40 + 3) (by decide) (by decide),
    serialize_round_trip.2 [0xff, 0x80] (-255) (by decide) (by decide)⟩

end CScriptNum

end BitcoinPQ

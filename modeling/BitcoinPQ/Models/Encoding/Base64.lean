import Mathlib.Data.List.GetD
import BitcoinPQ.Core.Digits

/-!
# Base64

`utilstrencodings.cpp`: `EncodeBase64` writes each three bytes as four characters of six
bits and pads a last group of one or two bytes with `=`; `DecodeBase64` reads characters of
the alphabet into bytes with the same four-state machine run backwards (`mode`, and the
bits `left` over), stops at the first other character, and then decides from the final
`mode`, the leftover bits and the characters after the last one read whether the input was
valid. Both keep the source's shifts and masks; the lemmas of the first section turn them
into arithmetic.

Strings are lists of characters, read as C strings: the decoder stops at the end of the
list as it stops at the terminating NUL, and a character past the end reads as NUL.

Decoding an encoding gives back the bytes, as valid (`DecodeBase64_EncodeBase64`). The
other direction holds only up to the padding: the decoder accepts any number of `=` after a
full group of four characters and at least the required number after a partial one, so
`AAAA=` decodes, as valid, to three zero bytes that encode to `AAAA`. What it does hold:
a valid input of alphabet characters and `=` re-encodes to its alphabet characters with
the encoder's padding.
-/

namespace BitcoinPQ

open Digits

/-- `pbase64`, the alphabet. -/
def pbase64 : List Char :=
  "ABCDEFGHIJKLMNOPQRSTUVWXYZabcdefghijklmnopqrstuvwxyz0123456789+/".toList

/-- `decode64_table`: the position of a character in the alphabet; `none` stands for the
table's `-1` on every other character. -/
def decode64_table (c : Char) : Option Nat := pbase64.idxOf? c

/-- The NUL that ends a C string. -/
def NUL : Char := Char.ofNat 0

/-- The loop of `EncodeBase64` from `mode` and `left`: the characters it appends, and the
final `mode` and `left`. -/
def encodeBase64Loop : Nat → Nat → List UInt8 → List Char × Nat × Nat
  | mode, left, [] => ([], mode, left)
  | mode, left, b :: pch =>
    let enc := b.toNat
    match mode with
    | 0 =>
      -- we have no bits
      let r := encodeBase64Loop 1 ((enc &&& 3) <<< 4) pch
      (pbase64.getD (enc >>> 2) ' ' :: r.1, r.2)
    | 1 =>
      -- we have two bits
      let r := encodeBase64Loop 2 ((enc &&& 15) <<< 2) pch
      (pbase64.getD (left ||| (enc >>> 4)) ' ' :: r.1, r.2)
    | 2 =>
      -- we have four bits
      let r := encodeBase64Loop 0 left pch
      (pbase64.getD (left ||| (enc >>> 6)) ' ' :: pbase64.getD (enc &&& 63) ' ' :: r.1, r.2)
    | _ => encodeBase64Loop mode left pch

/-- What `EncodeBase64` appends after the loop: the last bits and the padding. -/
def encodePadding (mode left : Nat) : List Char :=
  if mode ≠ 0 then pbase64.getD left ' ' :: '=' :: (if mode = 1 then ['='] else [])
  else []

/-- `EncodeBase64`. -/
def EncodeBase64 (pch : List UInt8) : List Char :=
  let r := encodeBase64Loop 0 0 pch
  r.1 ++ encodePadding r.2.1 r.2.2

/-- The loop of `DecodeBase64` from `mode` and `left`: the bytes it pushes, and the final
`mode`, `left` and the rest of the string from the first character not decoded. -/
def decodeBase64Loop : Nat → Nat → List Char → List UInt8 × Nat × Nat × List Char
  | mode, left, [] => ([], mode, left, [])
  | mode, left, c :: p =>
    match decode64_table c with
    | none => ([], mode, left, c :: p)
    | some dec =>
      match mode with
      | 0 =>
        -- we have no bits and get 6
        decodeBase64Loop 1 dec p
      | 1 =>
        -- we have 6 bits and keep 4
        let r := decodeBase64Loop 2 (dec &&& 15) p
        (UInt8.ofNat ((left <<< 2) ||| (dec >>> 4)) :: r.1, r.2)
      | 2 =>
        -- we have 4 bits and get 6, we keep 2
        let r := decodeBase64Loop 3 (dec &&& 3) p
        (UInt8.ofNat ((left <<< 4) ||| (dec >>> 2)) :: r.1, r.2)
      | 3 =>
        -- we have 2 bits and get 6
        let r := decodeBase64Loop 0 left p
        (UInt8.ofNat ((left <<< 6) ||| dec) :: r.1, r.2)
      | _ => decodeBase64Loop mode left p

/-- `*pfInvalid` after the loop, from the final `mode` and `left` and the rest `p`. -/
def base64Invalid (mode left : Nat) (p : List Char) : Bool :=
  match mode with
  -- 4n base64 characters processed: ok
  | 0 => false
  -- 4n+1 base64 character processed: impossible
  | 1 => true
  -- 4n+2 base64 characters processed: require '=='
  | 2 => left != 0 || p.getD 0 NUL != '=' || p.getD 1 NUL != '=' ||
      (decode64_table (p.getD 2 NUL)).isSome
  -- 4n+3 base64 characters processed: require '='
  | 3 => left != 0 || p.getD 0 NUL != '=' || (decode64_table (p.getD 1 NUL)).isSome
  | _ => false

/-- `DecodeBase64(p, pfInvalid)`: the bytes, and `*pfInvalid`. -/
def DecodeBase64 (p : List Char) : List UInt8 × Bool :=
  let r := decodeBase64Loop 0 0 p
  (r.1, base64Invalid r.2.1 r.2.2.1 r.2.2.2)

/-! ## Shifts and masks as arithmetic -/

theorem land_three (x : Nat) : x &&& 3 = x % 4 := Nat.and_two_pow_sub_one_eq_mod x 2

theorem land_fifteen (x : Nat) : x &&& 15 = x % 16 := Nat.and_two_pow_sub_one_eq_mod x 4

theorem land_sixty_three (x : Nat) : x &&& 63 = x % 64 := Nat.and_two_pow_sub_one_eq_mod x 6

/-- The second character of a group: two bits of the first byte over four of the second. -/
theorem encode_digit₂ (a b : Nat) (hb : b < 256) :
    ((a &&& 3) <<< 4) ||| (b >>> 4) = a % 4 * 16 + b / 16 := by
  rw [land_three, mul_two_pow_or_of_lt _ (by omega : b >>> 4 < 2 ^ 4)]
  omega

/-- The third character of a group: four bits of the second byte over two of the third. -/
theorem encode_digit₃ (b c : Nat) (hc : c < 256) :
    ((b &&& 15) <<< 2) ||| (c >>> 6) = b % 16 * 4 + c / 64 := by
  rw [land_fifteen, mul_two_pow_or_of_lt _ (by omega : c >>> 6 < 2 ^ 2)]
  omega

theorem decode_byte₁ (d e : Nat) (he : e < 64) : (d <<< 2) ||| (e >>> 4) = d * 4 + e / 16 := by
  rw [mul_two_pow_or_of_lt _ (by omega : e >>> 4 < 2 ^ 2)]
  omega

theorem decode_byte₂ (d e : Nat) (he : e < 64) :
    ((d &&& 15) <<< 4) ||| (e >>> 2) = d % 16 * 16 + e / 4 := by
  rw [land_fifteen, mul_two_pow_or_of_lt _ (by omega : e >>> 2 < 2 ^ 4)]
  omega

theorem decode_byte₃ (d e : Nat) (he : e < 64) : ((d &&& 3) <<< 6) ||| e = d % 4 * 64 + e := by
  rw [land_three, mul_two_pow_or_of_lt _ he]
  rfl

/-! ## The alphabet -/

/-- The character of each six-bit digit reads back as that digit. -/
theorem decode64_table_getD : ∀ d, d < 64 → decode64_table (pbase64.getD d ' ') = some d := by
  decide

theorem decode64_table_pad : decode64_table '=' = none := by decide

theorem exists_digit_of_mem {c : Char} (hc : c ∈ pbase64) : ∃ d, d < 64 ∧ pbase64.getD d ' ' = c := by
  obtain ⟨d, hd, rfl⟩ := List.mem_iff_getElem.mp hc
  exact ⟨d, hd, List.getD_eq_getElem _ _ hd⟩

/-! ## What the encoder writes -/

/-- Base64 by groups: four characters of six bits for each three bytes, and a last group of
one or two bytes padded with `=`. -/
def base64Groups : List UInt8 → List Char
  | a :: b :: c :: rest =>
    pbase64.getD (a.toNat / 4) ' ' :: pbase64.getD (a.toNat % 4 * 16 + b.toNat / 16) ' ' ::
      pbase64.getD (b.toNat % 16 * 4 + c.toNat / 64) ' ' :: pbase64.getD (c.toNat % 64) ' ' ::
        base64Groups rest
  | [a, b] =>
    [pbase64.getD (a.toNat / 4) ' ', pbase64.getD (a.toNat % 4 * 16 + b.toNat / 16) ' ',
      pbase64.getD (b.toNat % 16 * 4) ' ', '=']
  | [a] => [pbase64.getD (a.toNat / 4) ' ', pbase64.getD (a.toNat % 4 * 16) ' ', '=', '=']
  | [] => []

/-- A group of three bytes from mode 0: four characters, and mode 0 again. -/
theorem encodeBase64Loop_three (left : Nat) (a b c : UInt8) (rest : List UInt8) :
    encodeBase64Loop 0 left (a :: b :: c :: rest) =
      let r := encodeBase64Loop 0 ((b.toNat &&& 15) <<< 2) rest
      (pbase64.getD (a.toNat >>> 2) ' ' ::
        pbase64.getD (((a.toNat &&& 3) <<< 4) ||| (b.toNat >>> 4)) ' ' ::
        pbase64.getD (((b.toNat &&& 15) <<< 2) ||| (c.toNat >>> 6)) ' ' ::
        pbase64.getD (c.toNat &&& 63) ' ' :: r.1, r.2) := rfl

theorem encodeBase64Loop_two (left : Nat) (a b : UInt8) :
    encodeBase64Loop 0 left [a, b] =
      ([pbase64.getD (a.toNat >>> 2) ' ',
        pbase64.getD (((a.toNat &&& 3) <<< 4) ||| (b.toNat >>> 4)) ' '], 2,
        (b.toNat &&& 15) <<< 2) := rfl

theorem encodeBase64Loop_one (left : Nat) (a : UInt8) :
    encodeBase64Loop 0 left [a] = ([pbase64.getD (a.toNat >>> 2) ' '], 1, (a.toNat &&& 3) <<< 4) := rfl

theorem shiftRight_two (x : Nat) : x >>> 2 = x / 4 := Nat.shiftRight_eq_div_pow x 2

theorem land_three_shiftLeft (x : Nat) : (x &&& 3) <<< 4 = x % 4 * 16 := by
  rw [land_three, Nat.shiftLeft_eq]

theorem land_fifteen_shiftLeft (x : Nat) : (x &&& 15) <<< 2 = x % 16 * 4 := by
  rw [land_fifteen, Nat.shiftLeft_eq]

/-- The encoder's loop and padding write the groups, from any `left` in mode 0. -/
theorem encodeBase64Loop_base64Groups : ∀ (v : List UInt8) (left : Nat),
    (encodeBase64Loop 0 left v).1 ++ encodePadding (encodeBase64Loop 0 left v).2.1 (encodeBase64Loop 0 left v).2.2 =
      base64Groups v
  | [], _ => rfl
  | [a], left => by
    rw [encodeBase64Loop_one, shiftRight_two, land_three_shiftLeft]
    rfl
  | [a, b], left => by
    rw [encodeBase64Loop_two, shiftRight_two, encode_digit₂ _ _ b.toNat_lt, land_fifteen_shiftLeft]
    rfl
  | a :: b :: c :: rest, left => by
    rw [encodeBase64Loop_three, shiftRight_two, encode_digit₂ _ _ b.toNat_lt,
      encode_digit₃ _ _ c.toNat_lt, land_sixty_three]
    dsimp only
    rw [List.cons_append, List.cons_append, List.cons_append, List.cons_append,
      encodeBase64Loop_base64Groups rest]
    rfl

theorem EncodeBase64_eq (pch : List UInt8) : EncodeBase64 pch = base64Groups pch :=
  encodeBase64Loop_base64Groups pch 0

/-! ## The decoder, one character at a time -/

section Decode

variable {c : Char} {dec : Nat} (left : Nat) (p : List Char)

/-- One character of the decoder's loop; the lemmas below read its cases. -/
theorem decodeBase64Loop_cons (mode : Nat) :
    decodeBase64Loop mode left (c :: p) =
      match decode64_table c with
      | none => ([], mode, left, c :: p)
      | some dec =>
        match mode with
        | 0 => decodeBase64Loop 1 dec p
        | 1 =>
          let r := decodeBase64Loop 2 (dec &&& 15) p
          (UInt8.ofNat ((left <<< 2) ||| (dec >>> 4)) :: r.1, r.2)
        | 2 =>
          let r := decodeBase64Loop 3 (dec &&& 3) p
          (UInt8.ofNat ((left <<< 4) ||| (dec >>> 2)) :: r.1, r.2)
        | 3 =>
          let r := decodeBase64Loop 0 left p
          (UInt8.ofNat ((left <<< 6) ||| dec) :: r.1, r.2)
        | _ => decodeBase64Loop mode left p := by
  rw [decodeBase64Loop]

theorem decodeBase64Loop_stop {mode : Nat} (hc : decode64_table c = none) :
    decodeBase64Loop mode left (c :: p) = ([], mode, left, c :: p) := by
  rw [decodeBase64Loop_cons, hc]

theorem decodeBase64Loop_zero (hc : decode64_table c = some dec) :
    decodeBase64Loop 0 left (c :: p) = decodeBase64Loop 1 dec p := by
  rw [decodeBase64Loop_cons, hc]
  rfl

theorem decodeBase64Loop_one (hc : decode64_table c = some dec) :
    decodeBase64Loop 1 left (c :: p) =
      let r := decodeBase64Loop 2 (dec &&& 15) p
      (UInt8.ofNat ((left <<< 2) ||| (dec >>> 4)) :: r.1, r.2) := by
  rw [decodeBase64Loop_cons, hc]
  rfl

theorem decodeBase64Loop_two (hc : decode64_table c = some dec) :
    decodeBase64Loop 2 left (c :: p) =
      let r := decodeBase64Loop 3 (dec &&& 3) p
      (UInt8.ofNat ((left <<< 4) ||| (dec >>> 2)) :: r.1, r.2) := by
  rw [decodeBase64Loop_cons, hc]
  rfl

theorem decodeBase64Loop_three (hc : decode64_table c = some dec) :
    decodeBase64Loop 3 left (c :: p) =
      let r := decodeBase64Loop 0 left p
      (UInt8.ofNat ((left <<< 6) ||| dec) :: r.1, r.2) := by
  rw [decodeBase64Loop_cons, hc]
  rfl

/-- Padding stops the loop where it is. -/
theorem decodeBase64Loop_replicate (mode k : Nat) :
    decodeBase64Loop mode left (List.replicate k '=') = ([], mode, left, List.replicate k '=') := by
  cases k with
  | zero => rfl
  | succ k => exact decodeBase64Loop_stop left _ decode64_table_pad

end Decode

theorem base64Invalid_two {left : Nat} {p : List Char} (h : base64Invalid 2 left p = false) :
    left = 0 := by
  simp only [base64Invalid, Bool.or_eq_false_iff, bne_eq_false_iff_eq] at h
  exact h.1.1.1

theorem base64Invalid_three {left : Nat} {p : List Char} (h : base64Invalid 3 left p = false) :
    left = 0 := by
  simp only [base64Invalid, Bool.or_eq_false_iff, bne_eq_false_iff_eq] at h
  exact h.1.1

theorem ofNat_eq_of_toNat {x : Nat} {a : UInt8} (h : x = a.toNat) : UInt8.ofNat x = a := by
  rw [h, UInt8.ofNat_toNat]

/-- Decoding the groups gives back the bytes, and the padding is what the decoder requires. -/
theorem decodeBase64Loop_base64Groups : ∀ (v : List UInt8) (left : Nat),
    (decodeBase64Loop 0 left (base64Groups v)).1 = v ∧
      base64Invalid (decodeBase64Loop 0 left (base64Groups v)).2.1
        (decodeBase64Loop 0 left (base64Groups v)).2.2.1 (decodeBase64Loop 0 left (base64Groups v)).2.2.2 = false
  | [], _ => ⟨rfl, rfl⟩
  | [a], left => by
    have ha := a.toNat_lt
    rw [base64Groups, decodeBase64Loop_zero _ _ (decode64_table_getD _ (by omega)),
      decodeBase64Loop_one _ _ (decode64_table_getD _ (by omega)), decodeBase64Loop_stop _ _ decode64_table_pad,
      decode_byte₁ _ _ (by omega), land_fifteen]
    -- the two low bits of the byte fill the second character, whose last four bits are zero
    have hleft : a.toNat % 4 * 16 % 16 = 0 := by omega
    refine ⟨?_, ?_⟩
    · dsimp only
      rw [ofNat_eq_of_toNat (a := a) (by omega)]
    · dsimp only
      rw [hleft]
      rfl
  | [a, b], left => by
    have ha := a.toNat_lt
    have hb := b.toNat_lt
    rw [base64Groups, decodeBase64Loop_zero _ _ (decode64_table_getD _ (by omega)),
      decodeBase64Loop_one _ _ (decode64_table_getD _ (by omega)),
      decodeBase64Loop_two _ _ (decode64_table_getD _ (by omega)), decodeBase64Loop_stop _ _ decode64_table_pad,
      decode_byte₁ _ _ (by omega), decode_byte₂ _ _ (by omega), land_three]
    have hleft : b.toNat % 16 * 4 % 4 = 0 := by omega
    refine ⟨?_, ?_⟩
    · dsimp only
      rw [ofNat_eq_of_toNat (a := a) (by omega), ofNat_eq_of_toNat (a := b) (by omega)]
    · dsimp only
      rw [hleft]
      rfl
  | a :: b :: c :: rest, left => by
    have ha := a.toNat_lt
    have hb := b.toNat_lt
    have hc := c.toNat_lt
    rw [base64Groups, decodeBase64Loop_zero _ _ (decode64_table_getD _ (by omega)),
      decodeBase64Loop_one _ _ (decode64_table_getD _ (by omega)),
      decodeBase64Loop_two _ _ (decode64_table_getD _ (by omega)),
      decodeBase64Loop_three _ _ (decode64_table_getD _ (by omega)),
      decode_byte₁ _ _ (by omega), decode_byte₂ _ _ (by omega), decode_byte₃ _ _ (by omega)]
    obtain ⟨ih, hvalid⟩ := decodeBase64Loop_base64Groups rest ((b.toNat % 16 * 4 + c.toNat / 64) &&& 3)
    refine ⟨?_, hvalid⟩
    dsimp only
    rw [ofNat_eq_of_toNat (a := a) (by omega), ofNat_eq_of_toNat (a := b) (by omega),
      ofNat_eq_of_toNat (a := c) (by omega), ih]


theorem toNat_ofNat_lt {x : Nat} (hx : x < 256) : (UInt8.ofNat x).toNat = x :=
  UInt8.toNat_ofNat_of_lt' hx

/-- A valid input of alphabet characters and padding decodes to bytes whose groups are its
alphabet characters with the encoder's padding. -/
theorem base64Groups_decodeBase64Loop : ∀ (cs : List Char) (left k : Nat), (∀ c ∈ cs, c ∈ pbase64) →
    base64Invalid (decodeBase64Loop 0 left (cs ++ List.replicate k '=')).2.1
      (decodeBase64Loop 0 left (cs ++ List.replicate k '=')).2.2.1
      (decodeBase64Loop 0 left (cs ++ List.replicate k '=')).2.2.2 = false →
    base64Groups (decodeBase64Loop 0 left (cs ++ List.replicate k '=')).1 =
      cs ++ List.replicate ((4 - cs.length % 4) % 4) '='
  | [], left, k, _, _ => by
    rw [List.nil_append, decodeBase64Loop_replicate]
    rfl
  | [c₁], left, k, hcs, hvalid => by
    -- one character of a group leaves mode 1, which is never valid
    obtain ⟨d₁, hd₁, rfl⟩ := exists_digit_of_mem (hcs c₁ List.mem_cons_self)
    rw [List.cons_append, List.nil_append, decodeBase64Loop_zero _ _ (decode64_table_getD _ hd₁),
      decodeBase64Loop_replicate] at hvalid
    exact absurd hvalid (by simp [base64Invalid])
  | [c₁, c₂], left, k, hcs, hvalid => by
    obtain ⟨d₁, hd₁, rfl⟩ := exists_digit_of_mem (hcs c₁ (by simp))
    obtain ⟨d₂, hd₂, rfl⟩ := exists_digit_of_mem (hcs c₂ (by simp))
    rw [List.cons_append, List.cons_append, List.nil_append,
      decodeBase64Loop_zero _ _ (decode64_table_getD _ hd₁),
      decodeBase64Loop_one _ _ (decode64_table_getD _ hd₂)] at hvalid ⊢
    dsimp only at hvalid ⊢
    rw [decodeBase64Loop_replicate] at hvalid ⊢
    dsimp only at hvalid ⊢
    -- validity asks for the last four bits of the second character to be zero
    have h0 := base64Invalid_two hvalid
    rw [land_fifteen] at h0
    rw [decode_byte₁ _ _ hd₂, base64Groups, toNat_ofNat_lt (by omega)]
    have e₁ : (d₁ * 4 + d₂ / 16) / 4 = d₁ := by omega
    have e₂ : (d₁ * 4 + d₂ / 16) % 4 * 16 = d₂ := by omega
    rw [e₁, e₂]
    rfl
  | [c₁, c₂, c₃], left, k, hcs, hvalid => by
    obtain ⟨d₁, hd₁, rfl⟩ := exists_digit_of_mem (hcs c₁ (by simp))
    obtain ⟨d₂, hd₂, rfl⟩ := exists_digit_of_mem (hcs c₂ (by simp))
    obtain ⟨d₃, hd₃, rfl⟩ := exists_digit_of_mem (hcs c₃ (by simp))
    rw [List.cons_append, List.cons_append, List.cons_append, List.nil_append,
      decodeBase64Loop_zero _ _ (decode64_table_getD _ hd₁),
      decodeBase64Loop_one _ _ (decode64_table_getD _ hd₂)] at hvalid ⊢
    dsimp only at hvalid ⊢
    rw [decodeBase64Loop_two _ _ (decode64_table_getD _ hd₃)] at hvalid ⊢
    dsimp only at hvalid ⊢
    rw [decodeBase64Loop_replicate] at hvalid ⊢
    dsimp only at hvalid ⊢
    -- validity asks for the last two bits of the third character to be zero
    have h0 := base64Invalid_three hvalid
    rw [land_three] at h0
    rw [decode_byte₁ _ _ hd₂, decode_byte₂ _ _ hd₃, base64Groups, toNat_ofNat_lt (by omega),
      toNat_ofNat_lt (by omega)]
    have e₁ : (d₁ * 4 + d₂ / 16) / 4 = d₁ := by omega
    have e₂ : (d₁ * 4 + d₂ / 16) % 4 * 16 + (d₂ % 16 * 16 + d₃ / 4) / 16 = d₂ := by omega
    have e₃ : (d₂ % 16 * 16 + d₃ / 4) % 16 * 4 = d₃ := by omega
    rw [e₁, e₂, e₃]
    rfl
  | c₁ :: c₂ :: c₃ :: c₄ :: rest, left, k, hcs, hvalid => by
    obtain ⟨d₁, hd₁, rfl⟩ := exists_digit_of_mem (hcs c₁ (by simp))
    obtain ⟨d₂, hd₂, rfl⟩ := exists_digit_of_mem (hcs c₂ (by simp))
    obtain ⟨d₃, hd₃, rfl⟩ := exists_digit_of_mem (hcs c₃ (by simp))
    obtain ⟨d₄, hd₄, rfl⟩ := exists_digit_of_mem (hcs c₄ (by simp))
    have hrest : ∀ c ∈ rest, c ∈ pbase64 := fun c hc => hcs c (by simp [hc])
    simp only [List.cons_append] at hvalid ⊢
    rw [decodeBase64Loop_zero _ _ (decode64_table_getD _ hd₁),
      decodeBase64Loop_one _ _ (decode64_table_getD _ hd₂)] at hvalid ⊢
    dsimp only at hvalid ⊢
    rw [decodeBase64Loop_two _ _ (decode64_table_getD _ hd₃)] at hvalid ⊢
    dsimp only at hvalid ⊢
    rw [decodeBase64Loop_three _ _ (decode64_table_getD _ hd₄)] at hvalid ⊢
    dsimp only at hvalid ⊢
    have ih := base64Groups_decodeBase64Loop rest _ k hrest hvalid
    rw [decode_byte₁ _ _ hd₂, decode_byte₂ _ _ hd₃, decode_byte₃ _ _ hd₄, base64Groups,
      toNat_ofNat_lt (by omega), toNat_ofNat_lt (by omega), toNat_ofNat_lt (by omega), ih]
    -- each character comes back from the bits the three bytes hold
    have e₁ : (d₁ * 4 + d₂ / 16) / 4 = d₁ := by omega
    have e₂ : (d₁ * 4 + d₂ / 16) % 4 * 16 + (d₂ % 16 * 16 + d₃ / 4) / 16 = d₂ := by omega
    have e₃ : (d₂ % 16 * 16 + d₃ / 4) % 16 * 4 + (d₃ % 4 * 64 + d₄) / 64 = d₃ := by omega
    have e₄ : (d₃ % 4 * 64 + d₄) % 64 = d₄ := by omega
    have hpad : (4 - (rest.length + 1 + 1 + 1 + 1) % 4) % 4 = (4 - rest.length % 4) % 4 := by
      omega
    rw [e₁, e₂, e₃, e₄, List.length_cons, List.length_cons, List.length_cons, List.length_cons,
      hpad]

theorem DecodeBase64_EncodeBase64 :
    (∀ v : List UInt8, DecodeBase64 (EncodeBase64 v) = (v, false)) ∧
      ∀ (cs : List Char) (k : Nat), (∀ c ∈ cs, c ∈ pbase64) →
        (DecodeBase64 (cs ++ List.replicate k '=')).2 = false →
          EncodeBase64 (DecodeBase64 (cs ++ List.replicate k '=')).1 =
            cs ++ List.replicate ((4 - cs.length % 4) % 4) '=' := by
  refine ⟨fun v => ?_, fun cs k hcs hvalid => ?_⟩
  · obtain ⟨hbytes, hvalid⟩ := decodeBase64Loop_base64Groups v 0
    rw [EncodeBase64_eq, DecodeBase64, hbytes, hvalid]
  · rw [EncodeBase64_eq]
    exact base64Groups_decodeBase64Loop cs 0 k hcs hvalid

/-- Padding after a full group is accepted: `AAAA=` decodes, as valid, to three zero bytes,
which encode to `AAAA`. -/
theorem DecodeBase64_accepts_extra_padding :
    DecodeBase64 "AAAA=".toList = ([0, 0, 0], false) ∧
      EncodeBase64 [0, 0, 0] ≠ "AAAA=".toList := by
  decide


theorem DecodeBase64_EncodeBase64_padded :
    DecodeBase64 (EncodeBase64 [0x4d, 0x61]) = ([0x4d, 0x61], false) ∧
      EncodeBase64 (DecodeBase64 ("TWE".toList ++ List.replicate 1 '=')).1 =
        "TWE".toList ++ List.replicate ((4 - "TWE".toList.length % 4) % 4) '=' :=
  ⟨DecodeBase64_EncodeBase64.1 [0x4d, 0x61],
    DecodeBase64_EncodeBase64.2 "TWE".toList 1
      (by
        simp only [show "TWE".toList = ['T', 'W', 'E'] from rfl, List.forall_mem_cons]
        exact ⟨by decide, by decide, by decide, fun _ h => (by cases h)⟩)
      (by decide)⟩

end BitcoinPQ

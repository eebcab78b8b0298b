import Mathlib.Data.List.TakeWhile
import BitcoinPQ.Models.Primitives.Transaction
import BitcoinPQ.Core.Digits

/-!
# Base58 and Base58Check

`base58.cpp`: a byte string is written in base 58 as the digits of the number it
denotes, after one `1` for each leading zero byte. Each direction keeps a big-endian
buffer of the other base, multiplies it by its own base and adds the next digit in
place with a carry, and counts in `length` the digits that the carry has reached.
Base58Check appends the first four bytes of the double SHA-256 of the payload, which is
a parameter here.

Strings are lists of characters, read as C strings up to the first NUL. The buffers are
sized by `log(256) / log(58)` and its inverse, rounded up, so that the carry never runs
out of room: the model returns `none` at the assertions `assert(carry == 0)`, which
`EncodeBase58_eq` and `DecodeBase58_eq` show are never reached.
-/

namespace BitcoinPQ

open Digits

/-- `pszBase58`: all alphanumeric characters except for "0", "I", "O", and "l". -/
def pszBase58 : List Char := "123456789ABCDEFGHJKLMNPQRSTUVWXYZabcdefghijkmnopqrstuvwxyz".toList

/-- `isspace` in the C locale. -/
def isspace (c : Char) : Bool :=
  c == ' ' || c == '\t' || c == '\n' || c.toNat == 11 || c.toNat == 12 || c == '\r'

/-- The inner loop of `EncodeBase58` and `DecodeBase58`, over the buffer from its last
digit (`rbegin`): each digit becomes `mul * digit + carry` in base `base`, while there is
a carry or the digit is among the `length` reached before. The new digits, the carry
left, and the new `length`. -/
def mulAddLoop (base mul : ℕ) : (carry i length : ℕ) → List ℕ → List ℕ × ℕ × ℕ
  | carry, i, _, [] => ([], carry, i)
  | carry, i, length, d :: ds =>
    if carry ≠ 0 ∨ i < length then
      let carry := carry + mul * d
      let (ds', carry', i') := mulAddLoop base mul (carry / base) (i + 1) length ds
      (carry % base :: ds', carry', i')
    else (d :: ds, carry, i)

/-- The loop of `EncodeBase58` over the bytes: `b58 = b58 * 256 + ch`, little-endian. -/
def encodeLoop : List ℕ → ℕ → List UInt8 → Option (List ℕ × ℕ)
  | b58, length, [] => some (b58, length)
  | b58, length, x :: xs =>
    let (b58, carry, i) := mulAddLoop 58 256 x.toNat 0 length b58
    if carry = 0 then encodeLoop b58 i xs else none

/-- `EncodeBase58`; `none` where the assertion on the carry fails. -/
def EncodeBase58 (vch : List UInt8) : Option (List Char) := do
  -- skip and count leading zeroes
  let zeroes := (vch.takeWhile (· == 0)).length
  let bytes := vch.dropWhile (· == 0)
  -- log(256) / log(58), rounded up
  let size := bytes.length * 138 / 100 + 1
  let (b58, length) ← encodeLoop (List.replicate size 0) 0 bytes
  -- skip leading zeroes in the base58 result, from `b58.begin() + (size - length)`
  let it := (b58.take length).reverse.dropWhile (· == 0)
  pure (List.replicate zeroes '1' ++ it.map fun d => pszBase58.getD d ' ')

/-- The loop of `DecodeBase58` over the characters up to a space: `b256 = b256 * 58 + ch`,
little-endian, and the characters left; `none` for a character outside the alphabet or
where the assertion on the carry fails. -/
def decodeLoop : List ℕ → ℕ → List Char → Option (List ℕ × ℕ × List Char)
  | b256, length, [] => some (b256, length, [])
  | b256, length, c :: cs =>
    if isspace c then some (b256, length, c :: cs)
    else match pszBase58.idxOf? c with
      | none => none
      | some ch =>
        let (b256, carry, i) := mulAddLoop 256 58 ch 0 length b256
        if carry = 0 then decodeLoop b256 i cs else none

/-- `DecodeBase58`: `none` where it returns false. -/
def DecodeBase58 (str : List Char) : Option (List UInt8) := do
  -- the C string ends at the first NUL; skip leading spaces
  let psz := (str.takeWhile (· != Char.ofNat 0)).dropWhile isspace
  -- skip and count leading '1's
  let zeroes := (psz.takeWhile (· == '1')).length
  let psz := psz.dropWhile (· == '1')
  -- log(58) / log(256), rounded up
  let size := psz.length * 733 / 1000 + 1
  let (b256, length, rest) ← decodeLoop (List.replicate size 0) 0 psz
  -- only spaces may follow
  if (rest.dropWhile isspace).isEmpty then
    let it := (b256.take length).reverse.dropWhile (· == 0)
    pure (List.replicate zeroes 0 ++ it.map UInt8.ofNat)
  else none

/-- `EncodeBase58Check`: the payload and the first four bytes of its hash. -/
def EncodeBase58Check (Hash : List UInt8 → UInt256) (vchIn : List UInt8) : Option (List Char) :=
  EncodeBase58 (vchIn ++ (Hash vchIn).data.take 4)

/-- `DecodeBase58Check`: the payload, `none` where it returns false. -/
def DecodeBase58Check (Hash : List UInt8 → UInt256) (str : List Char) : Option (List UInt8) := do
  let vchRet ← DecodeBase58 str
  if vchRet.length < 4 then none
  else
    let payload := vchRet.take (vchRet.length - 4)
    -- the recalculated checksum must match the included one
    if (Hash payload).data.take 4 = vchRet.drop (vchRet.length - 4) then some payload else none

/-! ## The carry loop -/

section MulAdd

variable {base mul : ℕ}

/-- A digit the carry reaches becomes the low digit of `mul * digit + carry`. -/
theorem mulAddLoop_cons_of_go {carry i length d : ℕ} {ds : List ℕ} (hgo : carry ≠ 0 ∨ i < length) :
    mulAddLoop base mul carry i length (d :: ds) =
      ((carry + mul * d) % base :: (mulAddLoop base mul ((carry + mul * d) / base) (i + 1) length ds).1,
        (mulAddLoop base mul ((carry + mul * d) / base) (i + 1) length ds).2) := by
  rw [mulAddLoop, if_pos hgo]

/-- Without a carry and past `length`, the loop stops. -/
theorem mulAddLoop_cons_of_stop {carry i length d : ℕ} {ds : List ℕ} (hstop : ¬(carry ≠ 0 ∨ i < length)) :
    mulAddLoop base mul carry i length (d :: ds) = (d :: ds, carry, i) := by
  rw [mulAddLoop, if_neg hstop]

theorem mulAddLoop_length (carry i length : ℕ) (ds : List ℕ) :
    (mulAddLoop base mul carry i length ds).1.length = ds.length := by
  induction ds generalizing carry i with
  | nil => rfl
  | cons d ds ih =>
    by_cases hgo : carry ≠ 0 ∨ i < length
    case pos => rw [mulAddLoop_cons_of_go hgo, List.length_cons, List.length_cons, ih]
    case neg => rw [mulAddLoop_cons_of_stop hgo]

theorem le_mulAddLoop (carry i length : ℕ) (ds : List ℕ) : i ≤ (mulAddLoop base mul carry i length ds).2.2 := by
  induction ds generalizing carry i with
  | nil => exact le_rfl
  | cons d ds ih =>
    by_cases hgo : carry ≠ 0 ∨ i < length
    case pos =>
      rw [mulAddLoop_cons_of_go hgo]
      exact le_trans (Nat.le_succ i) (ih _ _)
    case neg => rw [mulAddLoop_cons_of_stop hgo]

theorem mulAddLoop_lt (hbase : 0 < base) (carry i length : ℕ) {ds : List ℕ} (h : ∀ x ∈ ds, x < base) :
    ∀ x ∈ (mulAddLoop base mul carry i length ds).1, x < base := by
  induction ds generalizing carry i with
  | nil => simp [mulAddLoop]
  | cons d ds ih =>
    by_cases hgo : carry ≠ 0 ∨ i < length
    case pos =>
      rw [mulAddLoop_cons_of_go hgo]
      intro x hx
      rcases List.mem_cons.mp hx with rfl | hx
      · exact Nat.mod_lt _ hbase
      · exact ih _ _ (fun y hy => h y (List.mem_cons_of_mem d hy)) x hx
    case neg =>
      rw [mulAddLoop_cons_of_stop hgo]
      exact h

/-- The loop multiplies the number in the buffer by `mul` and adds the carry, with the
carry left over above the buffer, when the digits from `length` on are zero. -/
theorem mulAddLoop_value (carry i length : ℕ) {ds : List ℕ} (h0 : ZeroFrom (length - i) ds) :
    Nat.ofDigits base (mulAddLoop base mul carry i length ds).1 +
        (mulAddLoop base mul carry i length ds).2.1 * base ^ ds.length =
      mul * Nat.ofDigits base ds + carry := by
  induction ds generalizing carry i with
  | nil => simp [mulAddLoop]
  | cons d ds ih =>
    by_cases hgo : carry ≠ 0 ∨ i < length
    case pos =>
      set r := mulAddLoop base mul ((carry + mul * d) / base) (i + 1) length ds
      have ih : Nat.ofDigits base r.1 + r.2.1 * base ^ ds.length =
          mul * Nat.ofDigits base ds + (carry + mul * d) / base :=
        ih ((carry + mul * d) / base) (i + 1) (fun j hj => h0 (j + 1) (by omega))
      have hdiv := Nat.mod_add_div (carry + mul * d) base
      rw [mulAddLoop_cons_of_go hgo, Nat.ofDigits_cons, Nat.ofDigits_cons, List.length_cons, pow_succ]
      calc (carry + mul * d) % base + base * Nat.ofDigits base r.1 + r.2.1 * (base ^ ds.length * base)
          = (carry + mul * d) % base + base * (Nat.ofDigits base r.1 + r.2.1 * base ^ ds.length) := by ring
        _ = (carry + mul * d) % base + base * ((carry + mul * d) / base) + base * (mul * Nat.ofDigits base ds) := by
              rw [ih]; ring
        _ = mul * (d + base * Nat.ofDigits base ds) + carry := by rw [hdiv]; ring
    case neg =>
      -- no carry and past `length`: the digits left are zero
      have hzero : ZeroFrom 0 (d :: ds) := h0.mono (by omega)
      have hcarry : carry = 0 := by omega
      rw [mulAddLoop_cons_of_stop hgo, ofDigits_of_zeroFrom_zero hzero, hcarry]
      simp

theorem mulAddLoop_zeroFrom (carry i length : ℕ) {ds : List ℕ} (h0 : ZeroFrom (length - i) ds) :
    ZeroFrom ((mulAddLoop base mul carry i length ds).2.2 - i) (mulAddLoop base mul carry i length ds).1 := by
  induction ds generalizing carry i with
  | nil => intro j _; rfl
  | cons d ds ih =>
    by_cases hgo : carry ≠ 0 ∨ i < length
    case pos =>
      set r := mulAddLoop base mul ((carry + mul * d) / base) (i + 1) length ds
      have ih : ZeroFrom (r.2.2 - (i + 1)) r.1 :=
        ih ((carry + mul * d) / base) (i + 1) (fun j hj => h0 (j + 1) (by omega))
      have hle : i + 1 ≤ r.2.2 := le_mulAddLoop _ _ _ _
      rw [mulAddLoop_cons_of_go hgo]
      show ZeroFrom (r.2.2 - i) ((carry + mul * d) % base :: r.1)
      intro j hj
      cases j with
      | zero => omega
      | succ j => exact ih j (by omega)
    case neg =>
      rw [mulAddLoop_cons_of_stop hgo, Nat.sub_self]
      exact h0.mono (by omega)

/-- One pass of the loop over a buffer of digits, zero from `length` on, that has room
for `mul * value + x`: no carry is left, and the buffer holds the new number, zero from
the new `length` on. -/
theorem mulAddLoop_step (base mul : ℕ) (hbase : 1 < base) {ds : List ℕ} {length : ℕ} (x : ℕ) (hlt : ∀ y ∈ ds, y < base)
    (h0 : ZeroFrom length ds) (hroom : mul * Nat.ofDigits base ds + x < base ^ ds.length) :
    (mulAddLoop base mul x 0 length ds).2.1 = 0 ∧
      Nat.ofDigits base (mulAddLoop base mul x 0 length ds).1 = mul * Nat.ofDigits base ds + x ∧
      (∀ y ∈ (mulAddLoop base mul x 0 length ds).1, y < base) ∧
      ZeroFrom (mulAddLoop base mul x 0 length ds).2.2 (mulAddLoop base mul x 0 length ds).1 ∧
      (mulAddLoop base mul x 0 length ds).1.length = ds.length := by
  have h0' : ZeroFrom (length - 0) ds := by simpa using h0
  have hvalue := @mulAddLoop_value base mul x 0 length ds h0'
  have hcarry : (mulAddLoop base mul x 0 length ds).2.1 = 0 := by
    by_contra hne
    have hpos : base ^ ds.length ≤ (mulAddLoop base mul x 0 length ds).2.1 * base ^ ds.length :=
      Nat.le_mul_of_pos_left _ (Nat.pos_of_ne_zero hne)
    omega
  refine ⟨hcarry, ?_, mulAddLoop_lt (by omega) x 0 length hlt, ?_, mulAddLoop_length x 0 length ds⟩
  · rw [hcarry, zero_mul, add_zero] at hvalue
    exact hvalue
  · simpa using @mulAddLoop_zeroFrom base mul x 0 length ds h0'

end MulAdd

/-! ## Encoding -/

theorem encodeLoop_cons (b58 : List ℕ) (length : ℕ) (x : UInt8) (xs : List UInt8) :
    encodeLoop b58 length (x :: xs) =
      if (mulAddLoop 58 256 x.toNat 0 length b58).2.1 = 0 then
        encodeLoop (mulAddLoop 58 256 x.toNat 0 length b58).1 (mulAddLoop 58 256 x.toNat 0 length b58).2.2 xs
      else none := rfl

/-- The encoding loop leaves the buffer holding the bytes' number, with room to spare. -/
theorem encodeLoop_spec : ∀ (xs : List UInt8) (b58 : List ℕ) (length : ℕ), (∀ y ∈ b58, y < 58) →
    ZeroFrom length b58 →
    Nat.ofDigits 58 b58 * 256 ^ xs.length + beValue 256 (xs.map UInt8.toNat) < 58 ^ b58.length →
    ∃ b58' length', encodeLoop b58 length xs = some (b58', length') ∧
      Nat.ofDigits 58 b58' = Nat.ofDigits 58 b58 * 256 ^ xs.length + beValue 256 (xs.map UInt8.toNat) ∧
      (∀ y ∈ b58', y < 58) ∧ ZeroFrom length' b58' ∧ b58'.length = b58.length
  | [], b58, length, hlt, h0, _ => ⟨b58, length, rfl, by simp, hlt, h0, rfl⟩
  | x :: xs, b58, length, hlt, h0, hroom => by
    -- the number after this byte is below the final one
    have hx := x.toNat_lt
    have hbound : 256 * Nat.ofDigits 58 b58 + x.toNat ≤
        Nat.ofDigits 58 b58 * 256 ^ (xs.length + 1) + beValue 256 ((x :: xs).map UInt8.toNat) := by
      rw [List.map_cons, beValue_cons, List.length_map]
      have h1 : 1 ≤ 256 ^ xs.length := Nat.one_le_pow _ _ (by norm_num)
      calc 256 * Nat.ofDigits 58 b58 + x.toNat
          ≤ (256 * Nat.ofDigits 58 b58 + x.toNat) * 256 ^ xs.length := Nat.le_mul_of_pos_right _ h1
        _ ≤ Nat.ofDigits 58 b58 * 256 ^ (xs.length + 1) + (x.toNat * 256 ^ xs.length +
              beValue 256 (xs.map UInt8.toNat)) := by rw [pow_succ]; nlinarith
    obtain ⟨hcarry, hvalue, hlt', h0', hlen⟩ :=
      mulAddLoop_step 58 256 (by norm_num) x.toNat hlt h0 (by rw [List.length_cons] at hroom; omega)
    have hroom' : Nat.ofDigits 58 (mulAddLoop 58 256 x.toNat 0 length b58).1 * 256 ^ xs.length +
        beValue 256 (xs.map UInt8.toNat) < 58 ^ (mulAddLoop 58 256 x.toNat 0 length b58).1.length := by
      rw [hvalue, hlen]
      rw [List.map_cons, beValue_cons, List.length_map, List.length_cons, pow_succ] at hroom
      nlinarith
    obtain ⟨b58', length', hloop, hvalue', hlt'', h0'', hlen'⟩ := encodeLoop_spec xs _ _ hlt' h0' hroom'
    refine ⟨b58', length', ?_, ?_, hlt'', h0'', hlen'.trans hlen⟩
    · rw [encodeLoop_cons, if_pos hcarry]
      exact hloop
    · rw [hvalue', hvalue, List.map_cons, beValue_cons, List.length_map, List.length_cons, pow_succ]
      ring

/-- `EncodeBase58` writes a `1` for each leading zero byte, then the minimal base58
digits of the number the other bytes denote. -/
theorem EncodeBase58_eq (vch : List UInt8) :
    EncodeBase58 vch = some (List.replicate (vch.takeWhile (· == 0)).length '1' ++
      (Nat.digits 58 (beValue 256 ((vch.dropWhile (· == 0)).map UInt8.toNat))).reverse.map
        fun d => pszBase58.getD d ' ') := by
  set bytes := vch.dropWhile (· == 0) with hbytes
  have hroom : Nat.ofDigits 58 (List.replicate (bytes.length * 138 / 100 + 1) 0) * 256 ^ bytes.length +
      beValue 256 (bytes.map UInt8.toNat) < 58 ^ (List.replicate (bytes.length * 138 / 100 + 1) 0).length := by
    have hzero : Nat.ofDigits 58 (List.replicate (bytes.length * 138 / 100 + 1) 0) = 0 :=
      ofDigits_of_zeroFrom_zero (ZeroFrom.replicate 0 _)
    have hlt := beValue_lt (b := 256) (by norm_num) (l := bytes.map UInt8.toNat)
      (fun y hy => by obtain ⟨x, -, rfl⟩ := List.mem_map.mp hy; exact x.toNat_lt)
    -- 256 ^ 100 ≤ 58 ^ 138: the buffer has room for every byte string
    have hbuf := pow_lt_pow_div_add_one (a := 256) (b := 58) (by norm_num) (by norm_num)
      (show (256 : ℕ) ^ 100 ≤ 58 ^ 138 by decide) bytes.length
    rw [hzero, zero_mul, zero_add, List.length_replicate]
    rw [List.length_map] at hlt
    rw [mul_comm] at hbuf
    omega
  obtain ⟨b58, length, hloop, hvalue, hlt, h0, -⟩ :=
    encodeLoop_spec bytes _ 0 (fun y hy => by rw [List.eq_of_mem_replicate hy]; norm_num)
      (ZeroFrom.replicate 0 _) hroom
  have hzero : Nat.ofDigits 58 (List.replicate (bytes.length * 138 / 100 + 1) 0) = 0 :=
    ofDigits_of_zeroFrom_zero (ZeroFrom.replicate 0 _)
  rw [hzero, zero_mul, zero_add] at hvalue
  have hdigits : (b58.take length).reverse.dropWhile (· == 0) =
      (Nat.digits 58 (beValue 256 (bytes.map UInt8.toNat))).reverse := by
    rw [dropWhile_reverse (by norm_num) (fun y hy => hlt y (List.mem_of_mem_take hy)),
      ofDigits_take_of_zeroFrom h0, hvalue]
  rw [EncodeBase58]
  simp only [Option.bind_eq_bind, ← hbytes, hloop, Option.bind_some, hdigits]
  rfl

/-! ## Decoding -/

/-- The digit of a base58 character. -/
def base58Digit (c : Char) : Option ℕ := pszBase58.idxOf? c

theorem base58Digit_getD {d : ℕ} (hd : d < 58) : base58Digit (pszBase58.getD d ' ') = some d := by
  revert d
  decide

theorem isspace_getD {d : ℕ} (hd : d < 58) : isspace (pszBase58.getD d ' ') = false := by
  revert d
  decide

theorem getD_ne_nul {d : ℕ} (hd : d < 58) : pszBase58.getD d ' ' ≠ Char.ofNat 0 := by
  revert d
  decide

theorem getD_ne_one {d : ℕ} (hd : d < 58) (hd0 : d ≠ 0) : pszBase58.getD d ' ' ≠ '1' := by
  revert d
  decide

theorem base58Digit_lt {c : Char} {d : ℕ} (h : base58Digit c = some d) : d < 58 := by
  obtain ⟨hlt, -, -⟩ := List.idxOf?_eq_some_iff.mp h
  exact hlt

theorem length_of_mapM_base58Digit : ∀ {cs : List Char} {ds : List ℕ},
    cs.mapM base58Digit = some ds → ds.length = cs.length
  | [], ds, h => by cases h; rfl
  | c :: cs, ds, h => by
    obtain ⟨d, ds', -, hds', rfl⟩ := mapM_cons_eq_some.mp h
    rw [List.length_cons, List.length_cons, length_of_mapM_base58Digit hds']

theorem lt_of_mapM_base58Digit : ∀ {cs : List Char} {ds : List ℕ},
    cs.mapM base58Digit = some ds → ∀ d ∈ ds, d < 58
  | [], ds, h => by cases h; simp
  | c :: cs, ds, h => by
    obtain ⟨d, ds', hd, hds', rfl⟩ := mapM_cons_eq_some.mp h
    intro y hy
    rcases List.mem_cons.mp hy with rfl | hy
    · exact base58Digit_lt hd
    · exact lt_of_mapM_base58Digit hds' y hy

/-- The characters of digits below 58 read back as those digits. -/
theorem mapM_base58Digit_map_getD {ds : List ℕ} (h : ∀ d ∈ ds, d < 58) :
    (ds.map fun d => pszBase58.getD d ' ').mapM base58Digit = some ds :=
  mapM_map_of_inverse fun d hd => base58Digit_getD (h d hd)

/-- A base58 character that is no space goes through the carry loop. -/
theorem decodeLoop_cons_of_digit {c : Char} {d : ℕ} (hc : isspace c = false) (hd : base58Digit c = some d)
    (b256 : List ℕ) (length : ℕ) (cs : List Char) :
    decodeLoop b256 length (c :: cs) =
      if (mulAddLoop 256 58 d 0 length b256).2.1 = 0 then
        decodeLoop (mulAddLoop 256 58 d 0 length b256).1 (mulAddLoop 256 58 d 0 length b256).2.2 cs
      else none := by
  rw [decodeLoop, if_neg (by rw [hc]; decide), show pszBase58.idxOf? c = some d from hd]

/-- The decoding loop over characters without a space leaves the buffer holding the
number of their digits. -/
theorem decodeLoop_spec : ∀ (cs : List Char) (ds : List ℕ) (b256 : List ℕ) (length : ℕ),
    (∀ c ∈ cs, isspace c = false) → cs.mapM base58Digit = some ds → (∀ y ∈ b256, y < 256) →
    ZeroFrom length b256 →
    Nat.ofDigits 256 b256 * 58 ^ cs.length + beValue 58 ds < 256 ^ b256.length →
    ∃ b256' length', decodeLoop b256 length cs = some (b256', length', []) ∧
      Nat.ofDigits 256 b256' = Nat.ofDigits 256 b256 * 58 ^ cs.length + beValue 58 ds ∧
      (∀ y ∈ b256', y < 256) ∧ ZeroFrom length' b256'
  | [], ds, b256, length, _, hmap, hlt, h0, _ => by
    cases hmap
    exact ⟨b256, length, rfl, by simp, hlt, h0⟩
  | c :: cs, ds, b256, length, hspace, hmap, hlt, h0, hroom => by
    obtain ⟨d, ds', hd, hds', rfl⟩ := mapM_cons_eq_some.mp hmap
    have hd58 := base58Digit_lt hd
    have hlen' : ds'.length = cs.length := length_of_mapM_base58Digit hds'
    -- the number after this digit is below the final one
    have hbound : 58 * Nat.ofDigits 256 b256 + d ≤
        Nat.ofDigits 256 b256 * 58 ^ (cs.length + 1) + beValue 58 (d :: ds') := by
      rw [beValue_cons, hlen']
      have h1 : 1 ≤ 58 ^ cs.length := Nat.one_le_pow _ _ (by norm_num)
      calc 58 * Nat.ofDigits 256 b256 + d ≤ (58 * Nat.ofDigits 256 b256 + d) * 58 ^ cs.length :=
            Nat.le_mul_of_pos_right _ h1
        _ ≤ Nat.ofDigits 256 b256 * 58 ^ (cs.length + 1) + (d * 58 ^ cs.length + beValue 58 ds') := by
            rw [pow_succ]; nlinarith
    rw [List.length_cons] at hroom
    obtain ⟨hcarry, hvalue, hlt', h0', hlen⟩ :=
      mulAddLoop_step 256 58 (by norm_num) d hlt h0 (by omega)
    have hroom' : Nat.ofDigits 256 (mulAddLoop 256 58 d 0 length b256).1 * 58 ^ cs.length +
        beValue 58 ds' < 256 ^ (mulAddLoop 256 58 d 0 length b256).1.length := by
      rw [hvalue, hlen]
      rw [beValue_cons, hlen', pow_succ] at hroom
      nlinarith
    obtain ⟨b256', length', hloop, hvalue', hlt'', h0''⟩ :=
      decodeLoop_spec cs ds' _ _ (fun c' hc' => hspace c' (List.mem_cons_of_mem c hc')) hds' hlt' h0' hroom'
    refine ⟨b256', length', ?_, ?_, hlt'', h0''⟩
    · rw [decodeLoop_cons_of_digit (hspace c (List.mem_cons_self ..)) hd, if_pos hcarry]
      exact hloop
    · rw [hvalue', hvalue, beValue_cons, hlen', List.length_cons, pow_succ]
      ring

/-- A character outside the alphabet stops the decoding loop. -/
theorem decodeLoop_of_mapM_none : ∀ (cs : List Char) (b256 : List ℕ) (length : ℕ),
    (∀ c ∈ cs, isspace c = false) → cs.mapM base58Digit = none → decodeLoop b256 length cs = none
  | [], _, _, _, hmap => by cases hmap
  | c :: cs, b256, length, hspace, hmap => by
    have hc : isspace c = false := hspace c (List.mem_cons_self ..)
    cases hd : base58Digit c with
    | none => rw [decodeLoop, if_neg (by rw [hc]; decide), show pszBase58.idxOf? c = none from hd]
    | some d =>
      have hrest : cs.mapM base58Digit = none := by
        cases hcs : cs.mapM base58Digit with
        | none => rfl
        | some ds =>
          rw [mapM_cons_eq_some.mpr ⟨d, ds, hd, hcs, rfl⟩] at hmap
          cases hmap
      rw [decodeLoop_cons_of_digit hc hd]
      split_ifs
      · exact decodeLoop_of_mapM_none cs _ _ (fun c' hc' => hspace c' (List.mem_cons_of_mem c hc')) hrest
      · rfl

/-- On a string without spaces or NUL, `DecodeBase58` gives a zero byte for each leading
`1`, then the minimal bytes of the number the other digits denote; it fails when a
character is outside the alphabet. -/
theorem DecodeBase58_eq {str : List Char} (hspace : ∀ c ∈ str, isspace c = false)
    (hnul : ∀ c ∈ str, c ≠ Char.ofNat 0) :
    DecodeBase58 str = ((str.dropWhile (· == '1')).mapM base58Digit).map fun ds =>
      List.replicate (str.takeWhile (· == '1')).length 0 ++
        ((Nat.digits 256 (beValue 58 ds)).reverse.map UInt8.ofNat) := by
  have htake : str.takeWhile (· != Char.ofNat 0) = str :=
    List.takeWhile_eq_self_iff.mpr (fun c hc => by simpa using hnul c hc)
  have hdrop : str.dropWhile isspace = str := by
    cases str with
    | nil => rfl
    | cons c cs => exact List.dropWhile_cons_of_neg (by rw [hspace c (List.mem_cons_self ..)]; decide)
  rw [DecodeBase58]
  simp only [htake, hdrop, Option.bind_eq_bind]
  set psz := str.dropWhile (· == '1')
  have hspace' : ∀ c ∈ psz, isspace c = false := fun c hc => hspace c (List.dropWhile_subset _ hc)
  cases hmap : psz.mapM base58Digit with
  | none =>
    rw [decodeLoop_of_mapM_none psz _ 0 hspace' hmap]
    rfl
  | some ds =>
    have hlen : ds.length = psz.length := length_of_mapM_base58Digit hmap
    have hzero : Nat.ofDigits 256 (List.replicate (psz.length * 733 / 1000 + 1) 0) = 0 :=
      ofDigits_of_zeroFrom_zero (ZeroFrom.replicate 0 _)
    have hroom : Nat.ofDigits 256 (List.replicate (psz.length * 733 / 1000 + 1) 0) * 58 ^ psz.length +
        beValue 58 ds < 256 ^ (List.replicate (psz.length * 733 / 1000 + 1) 0).length := by
      have hlt := beValue_lt (b := 58) (by norm_num) (lt_of_mapM_base58Digit hmap)
      -- 58 ^ 1000 ≤ 256 ^ 733: the buffer has room for every digit string
      have hbuf := pow_lt_pow_div_add_one (a := 58) (b := 256) (by norm_num) (by norm_num)
        (show (58 : ℕ) ^ 1000 ≤ 256 ^ 733 by decide +kernel) psz.length
      rw [hzero, zero_mul, zero_add, List.length_replicate]
      rw [hlen] at hlt
      rw [mul_comm] at hbuf
      omega
    obtain ⟨b256, length, hloop, hvalue, hlt, h0⟩ :=
      decodeLoop_spec psz ds _ 0 hspace' hmap (fun y hy => by rw [List.eq_of_mem_replicate hy]; norm_num)
        (ZeroFrom.replicate 0 _) hroom
    rw [hzero, zero_mul, zero_add] at hvalue
    have hdigits : (b256.take length).reverse.dropWhile (· == 0) =
        (Nat.digits 256 (beValue 58 ds)).reverse := by
      rw [dropWhile_reverse (by norm_num) (fun y hy => hlt y (List.mem_of_mem_take hy)),
        ofDigits_take_of_zeroFrom h0, hvalue]
    simp only [hloop, Option.bind_some, List.dropWhile_nil, List.isEmpty_nil, if_true, hdigits,
      Option.map_some]
    rfl

/-- A string that starts with a digit `d ≠ 0` followed by `n` more characters, and
decodes to `k + 1` bytes, denotes a number in `[d * 58 ^ n, (d + 1) * 58 ^ n)` and in
`[256 ^ k, 256 ^ (k + 1))`, whose quotient by `256 ^ k` is the first byte. -/
theorem DecodeBase58_head {c : Char} {cs : List Char} {d : ℕ} (hd : base58Digit c = some d) (hd0 : d ≠ 0)
    (hspace : ∀ c' ∈ c :: cs, isspace c' = false) (hnul : ∀ c' ∈ c :: cs, c' ≠ Char.ofNat 0)
    {v : List UInt8} {k : ℕ} (hv : DecodeBase58 (c :: cs) = some v) (hlen : v.length = k + 1) :
    ∃ N, d * 58 ^ cs.length ≤ N ∧ N < (d + 1) * 58 ^ cs.length ∧ 256 ^ k ≤ N ∧ N < 256 ^ (k + 1) ∧
      v.head? = some (UInt8.ofNat (N / 256 ^ k)) := by
  -- the first character is no `1`, whose digit is zero
  have hc1 : ¬(c == '1') = true := by
    intro h
    rw [beq_iff_eq.mp h, show base58Digit '1' = some 0 by decide] at hd
    exact hd0 (Option.some.inj hd).symm
  rw [DecodeBase58_eq hspace hnul, List.dropWhile_cons_of_neg (p := (· == '1')) hc1,
    List.takeWhile_cons_of_neg (p := (· == '1')) hc1,
    List.length_nil, List.replicate_zero] at hv
  simp only [List.nil_append] at hv
  obtain ⟨ds, hmap, rfl⟩ := Option.map_eq_some_iff.mp hv
  obtain ⟨d', ds', hd', hds', rfl⟩ := mapM_cons_eq_some.mp hmap
  obtain rfl : d' = d := Option.some.inj (hd'.symm.trans hd)
  have hn : ds'.length = cs.length := length_of_mapM_base58Digit hds'
  set N := beValue 58 (d' :: ds')
  -- the bytes are the minimal base-256 digits of `N`
  have hbytes : beValue 256 (Nat.digits 256 N).reverse = N := by
    rw [beValue, List.reverse_reverse, Nat.ofDigits_digits]
  have hhead := head?_reverse_digits_ne_zero 256 N
  have hlt : ∀ x ∈ (Nat.digits 256 N).reverse, x < 256 := fun x hx =>
    Nat.digits_lt_base (by norm_num) (List.mem_reverse.mp hx)
  rw [List.length_map] at hlen
  refine ⟨N, hn ▸ le_beValue_cons 58 d' ds', hn ▸ beValue_cons_lt (by norm_num) d' (lt_of_mapM_base58Digit hds'), ?_⟩
  cases hl : (Nat.digits 256 N).reverse with
  | nil => rw [hl] at hlen; cases hlen
  | cons h t =>
    rw [hl] at hbytes hhead hlen hlt
    have ht : t.length = k := Nat.succ.inj hlen
    have hh0 : h ≠ 0 := fun h0 => hhead (by rw [h0]; rfl)
    have hh : h < 256 := hlt h (List.mem_cons_self ..)
    have hlt' : ∀ x ∈ t, x < 256 := fun x hx => hlt x (List.mem_cons_of_mem h hx)
    have hdiv := beValue_cons_div (by norm_num) h hlt'
    have hle := le_beValue_cons 256 h t
    have hup := beValue_cons_lt (by norm_num) h hlt'
    rw [hbytes, ht] at hdiv hle hup
    refine ⟨le_trans (Nat.le_mul_of_pos_left _ (Nat.pos_of_ne_zero hh0)) hle, ?_, ?_⟩
    · calc N < (h + 1) * 256 ^ k := hup
        _ ≤ 256 * 256 ^ k := Nat.mul_le_mul_right _ hh
        _ = 256 ^ (k + 1) := (pow_succ' 256 k).symm
    · rw [List.map_cons, List.head?_cons, hdiv]

/-- A string whose first character is outside the alphabet does not decode. -/
theorem DecodeBase58_of_base58Digit_none {c : Char} {cs : List Char} (hc : base58Digit c = none)
    (hspace : ∀ c' ∈ c :: cs, isspace c' = false) (hnul : ∀ c' ∈ c :: cs, c' ≠ Char.ofNat 0) :
    DecodeBase58 (c :: cs) = none := by
  have hc1 : ¬(c == '1') = true := by
    intro h
    rw [beq_iff_eq.mp h] at hc
    exact absurd hc (by decide)
  rw [DecodeBase58_eq hspace hnul, List.dropWhile_cons_of_neg (p := (· == '1')) hc1, List.mapM_cons, hc]
  rfl

/-- A printable character, from `!` on, is no space and no NUL. -/
theorem isspace_of_le {c : Char} (h : 33 ≤ c.toNat) : isspace c = false ∧ c ≠ Char.ofNat 0 := by
  have hne : ∀ d : Char, d.toNat < 33 → c ≠ d := fun d hd hcd => by
    rw [hcd] at h
    omega
  refine ⟨?_, hne _ (by decide)⟩
  simp only [isspace, Bool.or_eq_false_iff, beq_eq_false_iff_ne]
  exact ⟨⟨⟨⟨⟨hne _ (by decide), hne _ (by decide)⟩, hne _ (by decide)⟩, by omega⟩, by omega⟩,
    hne _ (by decide)⟩

/-- What `DecodeBase58Check` returns is the decoded string without its last four bytes. -/
theorem DecodeBase58Check_eq_some {Hash : List UInt8 → UInt256} {str : List Char} {data : List UInt8}
    (h : DecodeBase58Check Hash str = some data) :
    ∃ vch, DecodeBase58 str = some vch ∧ vch.length = data.length + 4 ∧ data = vch.take data.length := by
  cases hdec : DecodeBase58 str with
  | none => simp [DecodeBase58Check, hdec] at h
  | some vch =>
    simp only [DecodeBase58Check, hdec, Option.bind_eq_bind, Option.bind_some] at h
    split_ifs at h with hlt hsum
    cases h
    refine ⟨vch, rfl, ?_, ?_⟩
    · rw [List.length_take]
      omega
    · rw [List.length_take, Nat.min_eq_left (by omega)]

/-! ## Round trips -/

/-- A run of leading elements equal to `a` is a run of copies of `a`. -/
theorem takeWhile_beq_eq_replicate {α : Type} [BEq α] [LawfulBEq α] (a : α) (l : List α) :
    l.takeWhile (· == a) = List.replicate (l.takeWhile (· == a)).length a := by
  apply List.eq_replicate_iff.mpr
  refine ⟨rfl, fun b hb => ?_⟩
  have hall := List.all_eq_true.mp List.all_takeWhile b hb
  exact beq_iff_eq.mp hall

/-- What is left after the leading run of `a` does not start with `a`. -/
theorem head?_dropWhile_beq_ne {α : Type} [BEq α] [LawfulBEq α] (a : α) (l : List α) :
    (l.dropWhile (· == a)).head? ≠ some a := by
  have h := List.head?_dropWhile_not (· == a) l
  intro heq
  rw [heq] at h
  simp at h

/-- The base58 digits of a number start with a character other than `1`, so the `1`s
written before them are read off as a run. -/
theorem ones_append_digits (zeroes m : ℕ) :
    (List.replicate zeroes '1' ++ (Nat.digits 58 m).reverse.map fun d => pszBase58.getD d ' ').takeWhile
        (· == '1') = List.replicate zeroes '1' ∧
      (List.replicate zeroes '1' ++ (Nat.digits 58 m).reverse.map fun d => pszBase58.getD d ' ').dropWhile
        (· == '1') = (Nat.digits 58 m).reverse.map fun d => pszBase58.getD d ' ' := by
  have hhead := head?_reverse_digits_ne_zero 58 m
  have hfirst : ∀ d ds, (Nat.digits 58 m).reverse = d :: ds → ¬(pszBase58.getD d ' ' == '1') = true := by
    intro d ds hds
    have hd0 : d ≠ 0 := fun h => hhead (by rw [hds, h]; rfl)
    have hd58 : d < 58 := Nat.digits_lt_base (by norm_num) (List.mem_reverse.mp (by rw [hds]; exact List.mem_cons_self ..))
    rw [beq_iff_eq]
    exact getD_ne_one hd58 hd0
  have hones : ∀ c ∈ List.replicate zeroes '1', (c == '1') = true := fun c hc => by
    rw [List.eq_of_mem_replicate hc]; rfl
  rw [List.takeWhile_append_of_pos hones, List.dropWhile_append_of_pos hones]
  cases hds : (Nat.digits 58 m).reverse with
  | nil => simp
  | cons d ds =>
    rw [List.map_cons, List.takeWhile_cons_of_neg (p := (· == '1')) (hfirst d ds hds), List.append_nil,
      List.dropWhile_cons_of_neg (p := (· == '1')) (hfirst d ds hds)]
    exact ⟨rfl, rfl⟩

/-- `DecodeBase58` reads back what `EncodeBase58` writes. -/
theorem DecodeBase58_EncodeBase58 (vch : List UInt8) :
    (EncodeBase58 vch).bind DecodeBase58 = some vch := by
  rw [EncodeBase58_eq, Option.bind_some]
  set bytes := vch.dropWhile (· == 0) with hbytes
  set zeroes := (vch.takeWhile (· == 0)).length with hzeroes
  set digits58 := (Nat.digits 58 (beValue 256 (bytes.map UInt8.toNat))).reverse with hdigits58
  have hlt58 : ∀ d ∈ digits58, d < 58 := fun d hd =>
    Nat.digits_lt_base (by norm_num) (List.mem_reverse.mp hd)
  have hhead : digits58.head? ≠ some 0 := head?_reverse_digits_ne_zero _ _
  set chars := digits58.map fun d => pszBase58.getD d ' ' with hchars
  -- no space and no NUL in the string
  have hgood : ∀ c ∈ List.replicate zeroes '1' ++ chars, isspace c = false ∧ c ≠ Char.ofNat 0 := by
    intro c hc
    rcases List.mem_append.mp hc with hc | hc
    · rw [List.eq_of_mem_replicate hc]
      exact ⟨rfl, by decide⟩
    · obtain ⟨d, hd, rfl⟩ := List.mem_map.mp hc
      exact ⟨isspace_getD (hlt58 d hd), getD_ne_nul (hlt58 d hd)⟩
  obtain ⟨htakeOnes, hdropOnes⟩ := ones_append_digits zeroes (beValue 256 (bytes.map UInt8.toNat))
  rw [DecodeBase58_eq (fun c hc => (hgood c hc).1) (fun c hc => (hgood c hc).2), hdropOnes,
    mapM_base58Digit_map_getD hlt58, Option.map_some, htakeOnes, List.length_replicate]
  -- the base58 digits denote the number of the bytes, whose minimal digits are the bytes
  have hvalue : beValue 58 digits58 = beValue 256 (bytes.map UInt8.toNat) := by
    rw [hdigits58, beValue, List.reverse_reverse, Nat.ofDigits_digits]
  have hbytes_head : (bytes.map UInt8.toNat).head? ≠ some 0 := by
    rw [List.head?_map]
    intro h
    obtain ⟨x, hx, hx0⟩ := Option.map_eq_some_iff.mp h
    have hx0 : x = 0 := UInt8.toNat_inj.mp hx0
    exact head?_dropWhile_beq_ne 0 vch (by rw [← hbytes, hx, hx0])
  rw [hvalue, digits_beValue (by norm_num) (fun y hy => by
      obtain ⟨x, -, rfl⟩ := List.mem_map.mp hy; exact x.toNat_lt) hbytes_head,
    List.map_map]
  have hid : (UInt8.ofNat ∘ UInt8.toNat) = id := funext fun x => UInt8.ofNat_toNat
  rw [hid, List.map_id, hzeroes, ← takeWhile_beq_eq_replicate, hbytes, List.takeWhile_append_dropWhile]

/-- `DecodeBase58Check` reads back what `EncodeBase58Check` writes, whatever the hash. -/
theorem DecodeBase58Check_EncodeBase58Check (Hash : List UInt8 → UInt256) (vchIn : List UInt8) :
    (EncodeBase58Check Hash vchIn).bind (DecodeBase58Check Hash) = some vchIn := by
  set vch := vchIn ++ (Hash vchIn).data.take 4 with hvch
  have hcheck : ((Hash vchIn).data.take 4).length = 4 := by
    rw [List.length_take, (Hash vchIn).size_eq]
    rfl
  obtain ⟨str, hstr⟩ : ∃ str, EncodeBase58 vch = some str := ⟨_, EncodeBase58_eq vch⟩
  have hdec : DecodeBase58 str = some vch := by
    have h := DecodeBase58_EncodeBase58 vch
    rwa [hstr, Option.bind_some] at h
  have hlen4 : vch.length = vchIn.length + 4 := by rw [hvch, List.length_append, hcheck]
  have hlen : vch.length - 4 = vchIn.length := by rw [hlen4, Nat.add_sub_cancel]
  rw [EncodeBase58Check, ← hvch, hstr, Option.bind_some, DecodeBase58Check]
  simp only [hdec, Option.bind_eq_bind, Option.bind_some]
  rw [if_neg (by omega), hlen, hvch, List.take_left' rfl, List.drop_left' rfl, if_pos rfl]

end BitcoinPQ

import Mathlib.Data.Nat.Bitwise
import BitcoinPQ.Models.Coins.Coins
import BitcoinPQ.Models.Keys.PubKey
import BitcoinPQ.Models.Serialize.VarInt

/-!
# Compressed coins

`compressor.h`/`compressor.cpp` and `Coin::Serialize`/`Coin::Unserialize` of
`coins.h`: the form in which the chainstate database stores an unspent output. The
amount is written by its decimal mantissa and exponent (`CompressAmount`), the script
as one of six templates or as its bytes behind its length plus `nSpecialScripts`, and
the height and coinbase flag as one `VARINT`.

Amounts are `uint64_t` in the compressor, so the arithmetic is on `Nat` reduced
modulo `2^64` where it can wrap. The secp256k1 and XMSS key routines are parameters.
-/

namespace BitcoinPQ

open Wire

/-! ## Amounts -/

/-- The loop of `CompressAmount`: up to nine trailing decimal zeros come off `n`, and
`e` counts them. -/
def stripZeros (n e : Nat) : Nat × Nat :=
  if n % 10 = 0 ∧ e < 9 then stripZeros (n / 10) (e + 1) else (n, e)
termination_by 9 - e

/-- `CTxOutCompressor::CompressAmount`. -/
def CompressAmount (n : Nat) : Nat :=
  if n = 0 then 0 else
    let (n, e) := stripZeros n 0
    if e < 9 then
      let d := n % 10
      let n := n / 10
      (1 + (n * 9 + d - 1) * 10 + e) % 2 ^ 64
    else (1 + (n - 1) * 10 + 9) % 2 ^ 64

/-- The loop `while (e) { n *= 10; e--; }` of `DecompressAmount` on a `uint64_t`. -/
def mulTenLoop (n : Nat) : Nat → Nat
  | 0 => n
  | e + 1 => mulTenLoop (n * 10 % 2 ^ 64) e

/-- The mantissa and the exponent that `DecompressAmount` reads from `x ≠ 0`. Neither
`x * 10 + d` nor `x + 1` can wrap, since `x` has been divided by ten. -/
def decodeAmount (x : Nat) : Nat × Nat :=
  let x := x - 1
  let e := x % 10
  let x := x / 10
  if e < 9 then
    let d := x % 9 + 1
    let x := x / 9
    (x * 10 + d, e)
  else (x + 1, e)

/-- `CTxOutCompressor::DecompressAmount`. -/
def DecompressAmount (x : Nat) : Nat :=
  if x = 0 then 0 else mulTenLoop (decodeAmount x).1 (decodeAmount x).2

/-- The amount a code stands for: its mantissa times ten to its exponent, without the
wrap-around of the `uint64_t` loop. -/
def amountOf (x : Nat) : Nat :=
  if x = 0 then 0 else (decodeAmount x).1 * 10 ^ (decodeAmount x).2

/-- The code `CompressAmount` computes from a mantissa `m` and an exponent `e`, before
the reduction modulo `2^64`: `1 + 10 * (9 * n + d - 1) + e` for the last digit `d` of
`m` below nine zeros, `1 + 10 * (m - 1) + 9` at nine. -/
def amountCode (m e : Nat) : Nat :=
  if e < 9 then 1 + (m / 10 * 9 + m % 10 - 1) * 10 + e else 1 + (m - 1) * 10 + 9

/-- What `stripZeros` returns: `n` is the mantissa times ten to the zeros taken off,
there are at most nine, and below nine the mantissa's last digit is not zero. -/
theorem stripZeros_spec {n e m e' : Nat} (he : e ≤ 9) (h : stripZeros n e = (m, e')) :
    n * 10 ^ e = m * 10 ^ e' ∧ e' ≤ 9 ∧ (e' < 9 → m % 10 ≠ 0) ∧ (0 < n → 0 < m) := by
  induction n, e using stripZeros.induct with
  | case1 n e hz ih =>
    -- a zero comes off: `n = n / 10 * 10`
    rw [stripZeros, if_pos hz] at h
    obtain ⟨hval, he', hlast, hpos⟩ := ih (by omega) h
    have hn : n = n / 10 * 10 := by omega
    refine ⟨?_, he', hlast, fun h0 => hpos (by omega)⟩
    calc n * 10 ^ e = n / 10 * 10 ^ (e + 1) := by
          rw [Nat.pow_succ, ← Nat.mul_assoc, Nat.mul_right_comm, ← hn]
      _ = m * 10 ^ e' := hval
  | case2 n e hz =>
    rw [stripZeros, if_neg hz] at h
    obtain ⟨rfl, rfl⟩ := Prod.mk.inj h
    exact ⟨rfl, he, fun hlt h0 => hz ⟨h0, hlt⟩, id⟩

/-- A mantissa with `k` zeros appended loses exactly them, when it ends in a non-zero
digit or the count reaches nine. -/
theorem stripZeros_mul_pow {m : Nat} (k : Nat) :
    ∀ e, e + k ≤ 9 → (e + k < 9 → m % 10 ≠ 0) → stripZeros (m * 10 ^ k) e = (m, e + k) := by
  induction k with
  | zero =>
    intro e he hlast
    rw [Nat.pow_zero, Nat.mul_one, stripZeros, if_neg fun h => hlast (by omega) h.1, Nat.add_zero]
  | succ k ih =>
    intro e he hlast
    have hpow : m * 10 ^ (k + 1) = m * 10 ^ k * 10 := by rw [Nat.pow_succ, Nat.mul_assoc]
    rw [stripZeros, if_pos ⟨by rw [hpow]; omega, by omega⟩, hpow, Nat.mul_div_cancel _ (by decide),
      ih (e + 1) (by omega) (fun h => hlast (by omega))]
    congr 1
    omega

/-- `CompressAmount` of a non-zero amount is the code of its stripped mantissa. -/
theorem CompressAmount_of_stripZeros {n m e : Nat} (hn : n ≠ 0) (h : stripZeros n 0 = (m, e)) :
    CompressAmount n = amountCode m e % 2 ^ 64 := by
  rw [CompressAmount, if_neg hn, h]
  dsimp only
  rw [amountCode]
  split_ifs <;> rfl

/-- `DecompressAmount` reads back the mantissa and the exponent of a code. -/
theorem decodeAmount_amountCode {m e : Nat} (hm : 0 < m) (he : e ≤ 9) (hlast : e < 9 → m % 10 ≠ 0) :
    decodeAmount (amountCode m e) = (m, e) := by
  unfold decodeAmount amountCode
  by_cases he9 : e < 9
  · have hd := hlast he9
    simp only [if_pos he9]
    rw [if_pos (by omega)]
    congr 1 <;> omega
  · simp only [if_neg he9]
    rw [if_neg (by omega)]
    congr 1 <;> omega

/-- A non-zero code is the code of what `decodeAmount` reads from it. -/
theorem amountCode_decodeAmount {x : Nat} (hx : x ≠ 0) :
    0 < (decodeAmount x).1 ∧ (decodeAmount x).2 ≤ 9 ∧ ((decodeAmount x).2 < 9 → (decodeAmount x).1 % 10 ≠ 0) ∧
      amountCode (decodeAmount x).1 (decodeAmount x).2 = x := by
  unfold decodeAmount
  by_cases he9 : (x - 1) % 10 < 9
  · simp only [if_pos he9]
    refine ⟨by omega, by omega, fun _ => by omega, ?_⟩
    rw [amountCode, if_pos he9]
    omega
  · simp only [if_neg he9]
    refine ⟨by omega, by omega, fun h => absurd h he9, ?_⟩
    rw [amountCode, if_neg he9]
    omega

/-- The `uint64_t` loop multiplies by ten to the exponent, modulo `2^64`. -/
theorem mulTenLoop_eq {n : Nat} (hn : n < 2 ^ 64) (e : Nat) : mulTenLoop n e = n * 10 ^ e % 2 ^ 64 := by
  induction e generalizing n with
  | zero => rw [mulTenLoop, Nat.pow_zero, Nat.mul_one, Nat.mod_eq_of_lt hn]
  | succ e ih =>
    rw [mulTenLoop, ih (Nat.mod_lt _ (by decide)), Nat.mod_mul_mod, @Nat.pow_succ 10 e,
      Nat.mul_comm (10 ^ e) 10, Nat.mul_assoc]

/-- A code whose amount fits a `uint64_t` decompresses to that amount. -/
theorem DecompressAmount_eq_amountOf {x : Nat} (h : amountOf x < 2 ^ 64) :
    DecompressAmount x = amountOf x := by
  unfold DecompressAmount amountOf at *
  split_ifs at h ⊢ with hx
  · rfl
  · have hm : (decodeAmount x).1 < 2 ^ 64 := by
      have hpos : 0 < 10 ^ (decodeAmount x).2 := Nat.pow_pos (by decide)
      have : (decodeAmount x).1 ≤ (decodeAmount x).1 * 10 ^ (decodeAmount x).2 := Nat.le_mul_of_pos_right _ hpos
      omega
    rw [mulTenLoop_eq hm, Nat.mod_eq_of_lt h]

/-- `MAX_MONEY` in base units, as a `Nat`. -/
theorem MAX_MONEY_toNat : MAX_MONEY.toNat = 2100000000000000 := rfl

/-- Decompression undoes compression on every amount up to `MAX_MONEY`. -/
theorem DecompressAmount_CompressAmount {n : Nat} (hn : (n : Int) ≤ MAX_MONEY) :
    DecompressAmount (CompressAmount n) = n := by
  have hmax : n ≤ 2100000000000000 := by
    have := MAX_MONEY_toNat
    omega
  rcases Nat.eq_zero_or_pos n with rfl | hpos
  · rfl
  rcases hstrip : stripZeros n 0 with ⟨m, e⟩
  obtain ⟨hval, he, hlast, hm⟩ := stripZeros_spec (Nat.zero_le _) hstrip
  rw [Nat.pow_zero, Nat.mul_one] at hval
  -- the code is about ten times the mantissa, so it fits a `uint64_t`
  have hmn : m ≤ n := by
    rw [hval]
    exact Nat.le_mul_of_pos_right _ (Nat.pow_pos (by decide))
  have hcode : 0 < amountCode m e ∧ amountCode m e < 2 ^ 64 := by
    unfold amountCode
    split_ifs <;> omega
  rw [CompressAmount_of_stripZeros (by omega) hstrip, Nat.mod_eq_of_lt hcode.2, DecompressAmount,
    if_neg (by omega), decodeAmount_amountCode (hm hpos) he hlast]
  dsimp only
  rw [mulTenLoop_eq (by omega), ← hval, Nat.mod_eq_of_lt (by omega)]

/-- Compression undoes decompression on every code whose amount, computed without the
wrap-around, is at most `MAX_MONEY`. -/
theorem CompressAmount_DecompressAmount {x : Nat} (hx : x < 2 ^ 64) (h : (amountOf x : Int) ≤ MAX_MONEY) :
    CompressAmount (DecompressAmount x) = x := by
  have hmax : amountOf x ≤ 2100000000000000 := by
    have := MAX_MONEY_toNat
    omega
  rw [DecompressAmount_eq_amountOf (by omega)]
  rcases Nat.eq_zero_or_pos x with rfl | hpos
  · rfl
  obtain ⟨hm, he, hlast, hcode⟩ := amountCode_decodeAmount (Nat.pos_iff_ne_zero.mp hpos)
  have hstrip := stripZeros_mul_pow (decodeAmount x).2 0 (by omega) (by simpa using hlast)
  rw [Nat.zero_add] at hstrip
  have hne : (decodeAmount x).1 * 10 ^ (decodeAmount x).2 ≠ 0 :=
    Nat.mul_ne_zero (by omega) (Nat.pos_iff_ne_zero.mp (Nat.pow_pos (by decide)))
  rw [amountOf, if_neg (by omega), CompressAmount_of_stripZeros hne hstrip, hcode, Nat.mod_eq_of_lt hx]

/-- Every code fits the `uint64_t` that `CompressAmount` returns. -/
theorem CompressAmount_lt (n : Nat) : CompressAmount n < 2 ^ 64 := by
  unfold CompressAmount
  split
  · exact Nat.two_pow_pos 64
  · split
    split <;> exact Nat.mod_lt _ (Nat.two_pow_pos 64)

/-! ## Keys -/

/-- The key routines of secp256k1 and `bpqcrypto` that the compressor reaches. -/
structure KeyCrypto where
  /-- `bpqcrypto::is_xmss_pubkey`. -/
  is_xmss_pubkey : List UInt8 → Bool
  /-- `ecdsa_check_pubkey`: secp256k1 parses the key. -/
  ecdsa_check_pubkey : List UInt8 → Bool
  /-- `ecdsa_decompress`: the 65-byte form of a key, `none` where secp256k1 fails. -/
  ecdsa_decompress : List UInt8 → Option (List UInt8)

namespace CPubKey

/-- `CPubKey::IsFullyValid`. -/
def IsFullyValid (C : KeyCrypto) (k : CPubKey) : Bool :=
  if !k.IsValid then false
  else if k.IsXMSS then C.is_xmss_pubkey k.vch
  else C.ecdsa_check_pubkey k.vch

/-- `CPubKey::Decompress`: whether it succeeded, and the key after it. -/
def Decompress (C : KeyCrypto) (k : CPubKey) : Bool × CPubKey :=
  if !k.IsValid then (false, k)
  else if k.IsXMSS then (false, k)
  else match C.ecdsa_decompress k.vch with
    | none => (false, k)
    | some pubkey =>
      let k := Set C.is_xmss_pubkey pubkey
      (k.IsValid, k)

end CPubKey

/-! ## Scripts -/

/-- A list with a known prefix and suffix around a field of known length is that prefix,
the field and that suffix. -/
theorem eq_frame {α : Type} {l p q : List α} {k : Nat} (hlen : l.length = p.length + k + q.length)
    (hp : ∀ i < p.length, l[i]? = p[i]?) (hq : ∀ j < q.length, l[p.length + k + j]? = q[j]?) :
    l = p ++ (l.drop p.length).take k ++ q := by
  apply List.ext_getElem?
  intro i
  rcases Nat.lt_or_ge i p.length with hi | hi
  · rw [hp i hi, List.append_assoc, List.getElem?_append_left hi]
  rcases Nat.lt_or_ge i (p.length + k) with hik | hik
  · rw [List.getElem?_append_left (by simp; omega), List.getElem?_append_right hi, List.getElem?_take_of_lt (by omega),
      List.getElem?_drop, Nat.add_sub_cancel' hi]
  · obtain ⟨j, rfl⟩ : ∃ j, i = p.length + k + j := ⟨i - (p.length + k), by omega⟩
    rw [List.getElem?_append_right (by simp; omega)]
    have hmid : (p ++ List.take k (List.drop p.length l)).length = p.length + k := by simp; omega
    rw [hmid, Nat.add_sub_cancel_left]
    rcases Nat.lt_or_ge j q.length with hj | hj
    · exact hq j hj
    · rw [List.getElem?_eq_none (by omega), List.getElem?_eq_none hj]

/-- `c | (b & 1)` for an even `c` below `0x80` adds the parity of `b`. -/
theorem toNat_or_parity {c : UInt8} (hc : c = 0x02 ∨ c = 0x04) (b : UInt8) :
    (c ||| (b &&& 0x01)).toNat = c.toNat + b.toNat % 2 := by
  have hpar : (b &&& 0x01).toNat = b.toNat % 2 := by
    rw [UInt8.toNat_and, show (0x01 : UInt8).toNat = 2 ^ 1 - 1 from rfl, Nat.and_two_pow_sub_one_eq_mod]
  obtain ⟨m, hm⟩ : ∃ m, c.toNat = 2 ^ 1 * m := by
    rcases hc with rfl | rfl
    · exact ⟨1, rfl⟩
    · exact ⟨2, rfl⟩
  rw [UInt8.toNat_or, hpar, hm, ← Nat.two_pow_add_eq_or_of_lt (Nat.mod_lt _ (by decide))]


/-- `nSpecialScripts`: the script sizes below it name templates. -/
def nSpecialScripts : Nat := 6

namespace CScriptCompressor

/-- `IsToKeyID`: the hash of a pay-to-key-hash script. -/
def IsToKeyID (script : CScript) : Option (List UInt8) :=
  if script.length = 25 ∧ script[0]? = some OP_DUP ∧ script[1]? = some OP_HASH160 ∧
      script[2]? = some 20 ∧ script[23]? = some OP_EQUALVERIFY ∧ script[24]? = some OP_CHECKSIG then
    some ((script.drop 3).take 20)
  else none

/-- `IsToScriptID`: the hash of a pay-to-script-hash script. -/
def IsToScriptID (script : CScript) : Option (List UInt8) :=
  if script.length = 23 ∧ script[0]? = some OP_HASH160 ∧ script[1]? = some 20 ∧
      script[22]? = some OP_EQUAL then
    some ((script.drop 2).take 20)
  else none

/-- `IsToPubKey`: the key of a pay-to-pubkey script, compressed, or uncompressed and
fully valid. -/
def IsToPubKey (C : KeyCrypto) (script : CScript) : Option CPubKey :=
  if script.length = 35 ∧ script[0]? = some 33 ∧ script[34]? = some OP_CHECKSIG ∧
      (script[1]? = some 0x02 ∨ script[1]? = some 0x03) then
    some (CPubKey.Set C.is_xmss_pubkey ((script.drop 1).take 33))
  else if script.length = 67 ∧ script[0]? = some 65 ∧ script[66]? = some OP_CHECKSIG ∧
      script[1]? = some 0x04 then
    let pubkey := CPubKey.Set C.is_xmss_pubkey ((script.drop 1).take 65)
    if pubkey.IsFullyValid C then some pubkey else none
  else none

/-- `CScriptCompressor::Compress`: the 21 or 33 bytes of a template, `none` for any
other script. -/
def Compress (C : KeyCrypto) (script : CScript) : Option (List UInt8) :=
  match IsToKeyID script with
  | some hash => some (0x00 :: hash)
  | none =>
    match IsToScriptID script with
    | some hash => some (0x01 :: hash)
    | none =>
      match IsToPubKey C script with
      | some pubkey =>
        let x := (pubkey.vch.drop 1).take 32
        if pubkey.vch[0]? = some 0x02 ∨ pubkey.vch[0]? = some 0x03 then some (pubkey.vch.headD 0 :: x)
        else if pubkey.vch[0]? = some 0x04 then some ((0x04 ||| (pubkey.vch.getD 64 0 &&& 0x01)) :: x)
        else none
      | none => none

/-- `CScriptCompressor::GetSpecialSize`. -/
def GetSpecialSize (nSize : Nat) : Nat :=
  if nSize = 0 ∨ nSize = 1 then 20
  else if nSize = 2 ∨ nSize = 3 ∨ nSize = 4 ∨ nSize = 5 then 32
  else 0

/-- `CScriptCompressor::Decompress` into `script`: whether it succeeded, and the script
after it. For `0x04` and `0x05` its `assert(pubkey.size() == 65)` is taken to hold. -/
def Decompress (C : KeyCrypto) (nSize : Nat) (input : List UInt8) (script : CScript) : Bool × CScript :=
  if nSize = 0 then (true, [OP_DUP, OP_HASH160, 20] ++ input.take 20 ++ [OP_EQUALVERIFY, OP_CHECKSIG])
  else if nSize = 1 then (true, [OP_HASH160, 20] ++ input.take 20 ++ [OP_EQUAL])
  else if nSize = 2 ∨ nSize = 3 then (true, [33, UInt8.ofNat nSize] ++ input.take 32 ++ [OP_CHECKSIG])
  else if nSize = 4 ∨ nSize = 5 then
    match (CPubKey.Set C.is_xmss_pubkey (UInt8.ofNat (nSize - 2) :: input.take 32)).Decompress C with
    | (true, pubkey) => (true, [65] ++ pubkey.vch ++ [OP_CHECKSIG])
    | (false, _) => (false, script)
  else (false, script)

/-- A script that `IsToKeyID` recognises is the pay-to-key-hash template around its hash. -/
theorem IsToKeyID_eq_some {script : CScript} {hash : List UInt8} (h : IsToKeyID script = some hash) :
    hash.length = 20 ∧ script = [OP_DUP, OP_HASH160, 20] ++ hash ++ [OP_EQUALVERIFY, OP_CHECKSIG] := by
  unfold IsToKeyID at h
  split_ifs at h with hs
  cases h
  obtain ⟨hlen, h0, h1, h2, h23, h24⟩ := hs
  refine ⟨by simp; omega, eq_frame (by simp [hlen]) ?_ ?_⟩
  · intro i hi
    match i, hi with
    | 0, _ => exact h0
    | 1, _ => exact h1
    | 2, _ => exact h2
  · intro j hj
    match j, hj with
    | 0, _ => exact h23
    | 1, _ => exact h24

/-- A script that `IsToScriptID` recognises is the pay-to-script-hash template around its
hash. -/
theorem IsToScriptID_eq_some {script : CScript} {hash : List UInt8} (h : IsToScriptID script = some hash) :
    hash.length = 20 ∧ script = [OP_HASH160, 20] ++ hash ++ [OP_EQUAL] := by
  unfold IsToScriptID at h
  split_ifs at h with hs
  cases h
  obtain ⟨hlen, h0, h1, h22⟩ := hs
  refine ⟨by simp; omega, eq_frame (by simp [hlen]) ?_ ?_⟩
  · intro i hi
    match i, hi with
    | 0, _ => exact h0
    | 1, _ => exact h1
  · intro j hj
    match j, hj with
    | 0, _ => exact h22

theorem head?_take_drop_one (script : CScript) (k : Nat) (hk : 0 < k) :
    ((script.drop 1).take k).head? = script[1]? := by
  rw [List.head?_take, if_neg (by omega), List.head?_drop]

/-- A script that `IsToPubKey` recognises is its key behind the key's length and before
`OP_CHECKSIG`: a compressed key, or a fully valid uncompressed one. -/
theorem IsToPubKey_eq_some {C : KeyCrypto} {script : CScript} {pubkey : CPubKey}
    (h : IsToPubKey C script = some pubkey) :
    (pubkey.vch.length = 33 ∧ (pubkey.vch.head? = some 0x02 ∨ pubkey.vch.head? = some 0x03) ∧
      script = [33] ++ pubkey.vch ++ [OP_CHECKSIG]) ∨
    (pubkey.vch.length = 65 ∧ pubkey.vch.head? = some 0x04 ∧ C.ecdsa_check_pubkey pubkey.vch = true ∧
      script = [65] ++ pubkey.vch ++ [OP_CHECKSIG]) := by
  unfold IsToPubKey at h
  split_ifs at h with h33 h65
  · -- a compressed key, which `CPubKey::Set` keeps
    cases h
    obtain ⟨hlen, h0, h34, h1⟩ := h33
    have hkeylen : ((script.drop 1).take 33).length = 33 := by simp; omega
    have hhead : ((script.drop 1).take 33).head? = some 2 ∨ ((script.drop 1).take 33).head? = some 3 := by
      rw [head?_take_drop_one script 33 (by decide)]
      exact h1
    rw [CPubKey.Set_of_check (check_pubkey_compressed _ hkeylen hhead)]
    refine Or.inl ⟨hkeylen, hhead, eq_frame (by simp [hlen]) ?_ ?_⟩
    · intro i hi
      obtain rfl : i = 0 := Nat.lt_one_iff.mp hi
      exact h0
    · intro j hj
      obtain rfl : j = 0 := Nat.lt_one_iff.mp hj
      exact h34
  · -- an uncompressed key, which must also be fully valid
    dsimp only at h
    split_ifs at h with hvalid
    cases h
    obtain ⟨hlen, h0, h66, h1⟩ := h65
    have hkeylen : ((script.drop 1).take 65).length = 65 := by simp; omega
    have hhead : ((script.drop 1).take 65).head? = some 4 := by
      rw [head?_take_drop_one script 65 (by decide)]
      exact h1
    rw [CPubKey.Set_of_check (check_pubkey_uncompressed _ hkeylen hhead)] at hvalid ⊢
    have hcheck : C.ecdsa_check_pubkey ((script.drop 1).take 65) = true := by
      have hvalid' : (CPubKey.mk ((script.drop 1).take 65)).IsValid = true := by
        rw [CPubKey.IsValid, CPubKey.size, hkeylen]
        rfl
      have hxmss : (CPubKey.mk ((script.drop 1).take 65)).IsXMSS = false := by
        rw [CPubKey.IsXMSS, hhead]
        rfl
      rwa [CPubKey.IsFullyValid, hvalid', hxmss] at hvalid
    refine Or.inr ⟨hkeylen, hhead, hcheck, eq_frame (by simp [hlen]) ?_ ?_⟩
    · intro i hi
      obtain rfl : i = 0 := Nat.lt_one_iff.mp hi
      exact h0
    · intro j hj
      obtain rfl : j = 0 := Nat.lt_one_iff.mp hj
      exact h66

/-- `ecdsa_decompress` inverts the compression of every fully valid uncompressed key: from
the header `0x02 | (parity of the last byte)` and the 32 bytes after the header, it
gives back the key. -/
def DecompressInverts (C : KeyCrypto) : Prop :=
  ∀ key : List UInt8, key.length = 65 → key.head? = some 0x04 → C.ecdsa_check_pubkey key = true →
    C.ecdsa_decompress ((0x02 ||| (key.getD 64 0 &&& 0x01)) :: (key.drop 1).take 32) = some key

/-- What `Compress` writes is a template's number, below `nSpecialScripts`, and as many
bytes as `GetSpecialSize` reads for it, from which `Decompress` rebuilds the script. -/
theorem Compress_spec {C : KeyCrypto} (hC : DecompressInverts C) {script : CScript} {out : List UInt8}
    (h : Compress C script = some out) :
    ∃ tag payload, out = tag :: payload ∧ tag.toNat < nSpecialScripts ∧
      payload.length = GetSpecialSize tag.toNat ∧ ∀ prev, (Decompress C tag.toNat payload prev).2 = script := by
  unfold Compress at h
  cases hk : IsToKeyID script with
  | some hash =>
    -- pay to a key hash
    rw [hk] at h
    cases h
    obtain ⟨hlen, hs⟩ := IsToKeyID_eq_some hk
    refine ⟨0, hash, rfl, by decide, by rw [hlen]; rfl, fun prev => ?_⟩
    rw [Decompress, if_pos (show UInt8.toNat 0 = 0 from rfl), List.take_of_length_le (by omega), hs]
  | none =>
  rw [hk] at h
  cases hsid : IsToScriptID script with
  | some hash =>
    -- pay to a script hash
    rw [hsid] at h
    cases h
    obtain ⟨hlen, hs⟩ := IsToScriptID_eq_some hsid
    refine ⟨1, hash, rfl, by decide, by rw [hlen]; rfl, fun prev => ?_⟩
    rw [Decompress, if_neg (show ¬UInt8.toNat 1 = 0 by decide), if_pos (show UInt8.toNat 1 = 1 from rfl),
      List.take_of_length_le (by omega), hs]
  | none =>
  rw [hsid] at h
  cases hpk : IsToPubKey C script with
  | none =>
    rw [hpk] at h
    cases h
  | some pubkey =>
  rw [hpk] at h
  dsimp only at h
  obtain ⟨vch⟩ := pubkey
  rcases vch with _ | ⟨hdr, tl⟩
  · rcases IsToPubKey_eq_some hpk with ⟨hlen, -⟩ | ⟨hlen, -⟩ <;> simp at hlen
  simp only [List.getElem?_cons_zero, List.headD_cons, List.drop_succ_cons, List.drop_zero] at h
  rcases IsToPubKey_eq_some hpk with ⟨hlen, hhead, hscript⟩ | ⟨hlen, hhead, hcheck, hscript⟩
  · -- a compressed key: its header is the template's number
    simp only [List.head?_cons] at hhead
    rw [if_pos hhead] at h
    cases h
    have htl : tl.length = 32 := by simp at hlen; omega
    have hhdr : hdr.toNat = 2 ∨ hdr.toNat = 3 := by
      rcases hhead with h2 | h3
      · exact Or.inl (by rw [Option.some.inj h2]; rfl)
      · exact Or.inr (by rw [Option.some.inj h3]; rfl)
    refine ⟨hdr, tl.take 32, rfl, by show hdr.toNat < 6; omega, ?_, fun prev => ?_⟩
    · rw [List.length_take, htl, GetSpecialSize, if_neg (by omega), if_pos (by omega)]
      rfl
    · rw [Decompress, if_neg (by omega), if_neg (by omega), if_pos hhdr, UInt8.ofNat_toNat,
        List.take_of_length_le (by simp only [List.length_take]; omega), List.take_of_length_le (by omega), hscript]
      rfl
  · -- an uncompressed key: the template's number carries the parity of its last byte
    simp only [List.head?_cons, Option.some.injEq] at hhead
    subst hhead
    rw [if_neg (by decide), if_pos rfl] at h
    cases h
    have htl : tl.length = 64 := by simp at hlen; omega
    have htag := toNat_or_parity (Or.inr rfl) ((4 :: tl).getD 64 0)
    have hpar := toNat_or_parity (Or.inl rfl) ((4 :: tl).getD 64 0)
    have hbit : ((4 :: tl).getD 64 0).toNat % 2 < 2 := Nat.mod_lt _ (by decide)
    have h4 : (0x04 : UInt8).toNat = 4 := rfl
    have h2 : (0x02 : UInt8).toNat = 2 := rfl
    have h3 : (0x03 : UInt8).toNat = 3 := rfl
    refine ⟨_, tl.take 32, rfl, by show _ < 6; omega, ?_, fun prev => ?_⟩
    · rw [List.length_take, htl, GetSpecialSize, if_neg (by omega), if_pos (by omega)]
      rfl
    -- `Decompress` rebuilds the compressed key and has secp256k1 decompress it
    have hhdr : UInt8.ofNat ((0x04 ||| ((4 :: tl).getD 64 0 &&& 0x01)).toNat - 2) =
        0x02 ||| ((4 :: tl).getD 64 0 &&& 0x01) := by
      rw [← UInt8.toNat_inj, UInt8.toNat_ofNat', htag, hpar]
      omega
    have hcomp : ((0x02 ||| ((4 :: tl).getD 64 0 &&& 0x01)) :: tl.take 32).length = 33 ∧
        (((0x02 ||| ((4 :: tl).getD 64 0 &&& 0x01)) :: tl.take 32).head? = some 2 ∨
          ((0x02 ||| ((4 :: tl).getD 64 0 &&& 0x01)) :: tl.take 32).head? = some 3) := by
      refine ⟨by simp; omega, ?_⟩
      simp only [List.head?_cons, Option.some.injEq, ← UInt8.toNat_inj, hpar, h2, h3]
      omega
    have hdec : CPubKey.Decompress C ⟨(0x02 ||| ((4 :: tl).getD 64 0 &&& 0x01)) :: tl.take 32⟩ =
        (true, ⟨4 :: tl⟩) := by
      have hvalid : (CPubKey.mk ((0x02 ||| ((4 :: tl).getD 64 0 &&& 0x01)) :: tl.take 32)).IsValid = true := by
        rw [CPubKey.IsValid, CPubKey.size, hcomp.1]
        rfl
      have hxmss : (CPubKey.mk ((0x02 ||| ((4 :: tl).getD 64 0 &&& 0x01)) :: tl.take 32)).IsXMSS = false := by
        rw [CPubKey.IsXMSS]
        rcases hcomp.2 with hh | hh <;> rw [hh] <;> rfl
      rw [CPubKey.Decompress, hvalid, hxmss]
      simp only [Bool.not_true, Bool.false_eq_true, if_false]
      have hkey := hC (4 :: tl) hlen rfl hcheck
      rw [List.drop_succ_cons, List.drop_zero] at hkey
      rw [hkey]
      dsimp only
      rw [CPubKey.Set_of_check (check_pubkey_uncompressed _ hlen rfl)]
      rfl
    rw [Decompress, if_neg (by omega), if_neg (by omega), if_neg (by omega), if_pos (by omega), hhdr,
      List.take_of_length_le (by simp only [List.length_take]; omega),
      CPubKey.Set_of_check (check_pubkey_compressed _ hcomp.1 hcomp.2), hdec, hscript]

/-- `CScriptCompressor::Serialize`. -/
def Serialize (C : KeyCrypto) (script : CScript) : List UInt8 :=
  match Compress C script with
  | some compr => compr
  | none => WriteVarInt ((script.length + nSpecialScripts) % 2 ^ 32) ++ script

/-- `CDataStream::ignore(int nSize)`. -/
def ignore (nSize : Int) : Reader Unit := fun s =>
  if nSize < 0 then .error "CDataStream::ignore(): nSize negative"
  else if s.length < nSize.toNat then .error "CDataStream::ignore(): end of data"
  else .ok ((), s.drop nSize.toNat)

/-- `CScriptCompressor::Unserialize` into `script`. -/
def Unserialize (C : KeyCrypto) (script : CScript) : Reader CScript := do
  let nSize ← ReadVarInt UINT_MAX
  if nSize < nSpecialScripts then
    let vch ← readBytes (GetSpecialSize nSize)
    pure (Decompress C nSize vch script).2
  else
    let nSize := nSize - nSpecialScripts
    if nSize > MAX_SCRIPT_SIZE then do
      -- an overly long script is replaced by a short invalid one
      ignore (UInt32.ofNat nSize).toInt32.toInt
      pure (script ++ [OP_RETURN])
    else readBytes nSize

/-- Every script within `MAX_SCRIPT_SIZE` reads back from what `Serialize` writes,
whatever script it is read into and whatever bytes follow. -/
theorem Unserialize_Serialize {C : KeyCrypto} (hC : DecompressInverts C) {script : CScript}
    (hsize : script.length ≤ MAX_SCRIPT_SIZE) (prev : CScript) (rest : List UInt8) :
    (Unserialize C prev).run (Serialize C script ++ rest) = .ok (script, rest) := by
  unfold Serialize
  cases hc : Compress C script with
  | some out =>
    -- a template: its number is one `VARINT` byte, then as many bytes as it reads
    obtain ⟨tag, payload, rfl, htag, hlen, hdec⟩ := Compress_spec hC hc
    have htag' : tag.toNat < 128 := by unfold nSpecialScripts at htag; omega
    have hw : tag :: payload ++ rest = WriteVarInt tag.toNat ++ (payload ++ rest) := by
      rw [WriteVarInt_of_lt htag', UInt8.ofNat_toNat]
      rfl
    rw [hw, Unserialize, (ReadVarInt_reads UINT_MAX).run_bind (by unfold UINT_MAX; omega), if_pos htag,
      StateT.run_bind, readBytes_run hlen]
    show Except.ok ((Decompress C tag.toNat payload prev).2, rest) = _
    rw [hdec]
  | none =>
    -- the raw form: the length shifted past the templates, then the bytes
    have hw : (script.length + nSpecialScripts) % 2 ^ 32 = script.length + nSpecialScripts := by
      unfold MAX_SCRIPT_SIZE at hsize
      unfold nSpecialScripts
      omega
    rw [hw, List.append_assoc, Unserialize,
      (ReadVarInt_reads UINT_MAX).run_bind (by unfold MAX_SCRIPT_SIZE at hsize; unfold UINT_MAX nSpecialScripts; omega),
      if_neg (by omega), if_neg (by omega)]
    exact readBytes_run (by omega) rest

end CScriptCompressor

/-! ## Outputs and coins -/

/-- `CTxOutCompressor` writing. -/
def CTxOutCompressor.Serialize (C : KeyCrypto) (txout : CTxOut) : List UInt8 :=
  WriteVarInt (CompressAmount txout.nValue.toUInt64.toNat) ++ CScriptCompressor.Serialize C txout.scriptPubKey

/-- `CTxOutCompressor` reading into `txout`. -/
def CTxOutCompressor.Unserialize (C : KeyCrypto) (txout : CTxOut) : Reader CTxOut := do
  let nVal ← ReadVarInt UINT64_MAX
  let scriptPubKey ← CScriptCompressor.Unserialize C txout.scriptPubKey
  pure ⟨Int64.ofNat (DecompressAmount nVal), scriptPubKey⟩

/-- `Coin::Serialize`, after its `assert(!IsSpent())`. The 31-bit `nHeight` and the
flag make one `uint32_t` code. -/
def Coin.Serialize (C : KeyCrypto) (coin : Coin) : List UInt8 :=
  WriteVarInt ((coin.nHeight * 2 + if coin.fCoinBase then 1 else 0) % 2 ^ 32) ++
    CTxOutCompressor.Serialize C coin.out

/-- `Coin::Unserialize` into `coin`. -/
def Coin.Unserialize (C : KeyCrypto) (coin : Coin) : Reader Coin := do
  let code ← ReadVarInt UINT_MAX
  let out ← CTxOutCompressor.Unserialize C coin.out
  pure ⟨out, code % 2 = 1, code / 2⟩

/-- Every output with an amount in `MoneyRange` and a script within `MAX_SCRIPT_SIZE`
reads back, whatever output it is read into. -/
theorem CTxOutCompressor.Unserialize_Serialize {C : KeyCrypto} (hC : CScriptCompressor.DecompressInverts C) {txout : CTxOut}
    (hval : MoneyRange txout.nValue.toInt = true) (hsize : txout.scriptPubKey.length ≤ MAX_SCRIPT_SIZE)
    (prev : CTxOut) (rest : List UInt8) :
    (CTxOutCompressor.Unserialize C prev).run (CTxOutCompressor.Serialize C txout ++ rest) = .ok (txout, rest) := by
  obtain ⟨nValue, script⟩ := txout
  dsimp only at hval hsize
  simp only [MoneyRange, Bool.and_eq_true, decide_eq_true_eq] at hval
  -- a non-negative `CAmount` is written as its `uint64_t` value
  have hlo : 0 ≤ nValue := Int64.le_iff_toInt_le.mpr hval.1
  have hn : nValue.toUInt64.toNat = nValue.toNatClampNeg := Int64.toNat_toUInt64_of_le hlo
  have hmax : (nValue.toNatClampNeg : Int) ≤ MAX_MONEY := by
    rw [Int64.toNatClampNeg, Int.toNat_of_nonneg hval.1]
    exact hval.2
  rw [CTxOutCompressor.Serialize, CTxOutCompressor.Unserialize, List.append_assoc]
  dsimp only
  rw [(ReadVarInt_reads UINT64_MAX).run_bind (by have := CompressAmount_lt nValue.toUInt64.toNat; unfold UINT64_MAX; omega),
    StateT.run_bind, CScriptCompressor.Unserialize_Serialize hC hsize]
  show Except.ok ((⟨Int64.ofNat (DecompressAmount (CompressAmount nValue.toUInt64.toNat)), script⟩ : CTxOut), rest) = _
  rw [hn, DecompressAmount_CompressAmount hmax, Int64.ofNat_toNatClampNeg _ hlo]

/-- Every coin with a height below `2^31`, an amount in `MoneyRange` and a script within
`MAX_SCRIPT_SIZE` reads back, whatever coin it is read into. -/
theorem Coin.Unserialize_Serialize {C : KeyCrypto} (hC : CScriptCompressor.DecompressInverts C) {coin : Coin}
    (hval : MoneyRange coin.out.nValue.toInt = true) (hheight : coin.nHeight < 2 ^ 31)
    (hsize : coin.out.scriptPubKey.length ≤ MAX_SCRIPT_SIZE) (prev : Coin) (rest : List UInt8) :
    (Coin.Unserialize C prev).run (Coin.Serialize C coin ++ rest) = .ok (coin, rest) := by
  obtain ⟨out, fCoinBase, nHeight⟩ := coin
  dsimp only at hval hheight hsize
  -- the code `nHeight * 2 + fCoinBase` fits its `uint32_t`, and both halves come back from it
  have hcode : (nHeight * 2 + if fCoinBase then 1 else 0) % 2 ^ 32 = nHeight * 2 + if fCoinBase then 1 else 0 :=
    Nat.mod_eq_of_lt (by split <;> omega)
  have hbit : decide ((nHeight * 2 + if fCoinBase then 1 else 0) % 2 = 1) = fCoinBase := by
    cases fCoinBase <;> simp
  have hhalf : (nHeight * 2 + if fCoinBase then 1 else 0) / 2 = nHeight := by
    split <;> omega
  rw [Coin.Serialize, Coin.Unserialize]
  dsimp only
  rw [hcode, List.append_assoc, (ReadVarInt_reads UINT_MAX).run_bind (by unfold UINT_MAX; split <;> omega),
    StateT.run_bind, CTxOutCompressor.Unserialize_Serialize hC hval hsize]
  show Except.ok ((⟨out, decide ((nHeight * 2 + if fCoinBase then 1 else 0) % 2 = 1),
    (nHeight * 2 + if fCoinBase then 1 else 0) / 2⟩ : Coin), rest) = _
  rw [hbit, hhalf]

theorem Coin_round_trip :
    (∀ (C : KeyCrypto), CScriptCompressor.DecompressInverts C → ∀ (coin prev : Coin) (rest : List UInt8),
        MoneyRange coin.out.nValue.toInt = true → coin.nHeight < 2 ^ 31 →
        coin.out.scriptPubKey.length ≤ MAX_SCRIPT_SIZE →
        (Coin.Unserialize C prev).run (Coin.Serialize C coin ++ rest) = .ok (coin, rest)) ∧
      (∀ n : Nat, (n : Int) ≤ MAX_MONEY → DecompressAmount (CompressAmount n) = n) ∧
      ∀ x : Nat, x < 2 ^ 64 → (amountOf x : Int) ≤ MAX_MONEY → CompressAmount (DecompressAmount x) = x :=
  ⟨fun _ hC _ prev rest hval hheight hsize => Coin.Unserialize_Serialize hC hval hheight hsize prev rest,
    fun _ hn => DecompressAmount_CompressAmount hn, fun _ hx h => CompressAmount_DecompressAmount hx h⟩

/-- An uncompressed key: `0x04`, an x coordinate of 32 bytes `0x11`, and a y coordinate
ending in the odd byte `0x13`. -/
def toyKey : List UInt8 := 0x04 :: List.replicate 32 0x11 ++ List.replicate 31 0x12 ++ [0x13]

/-- A stand-in for secp256k1 with one valid uncompressed key, `toyKey`, to which its
compressed form decompresses. -/
def toyCrypto : KeyCrypto where
  is_xmss_pubkey _ := false
  ecdsa_check_pubkey key := key == toyKey
  ecdsa_decompress c := if c = 0x03 :: List.replicate 32 0x11 then some toyKey else none

theorem toyCrypto_DecompressInverts : CScriptCompressor.DecompressInverts toyCrypto := by
  intro key _ _ hcheck
  have hkey : key = toyKey := by simpa [toyCrypto] using hcheck
  subst hkey
  decide

/-- A coinbase coin paying 50 to `toyKey`, whose script the compressor writes as the
template `0x05` with the key's x coordinate. -/
def toyCoin : Coin := ⟨⟨50, [65] ++ toyKey ++ [OP_CHECKSIG]⟩, true, 7⟩

theorem Coin_round_trip_toyKey :
    (Coin.Unserialize toyCrypto Coin.empty).run (Coin.Serialize toyCrypto toyCoin ++ [9]) = .ok (toyCoin, [9]) ∧
      DecompressAmount (CompressAmount 50) = 50 ∧ CompressAmount (DecompressAmount 9) = 9 :=
  ⟨Coin_round_trip.1 toyCrypto toyCrypto_DecompressInverts toyCoin Coin.empty [9] (by decide) (by decide)
      (by decide),
    Coin_round_trip.2.1 50 (by decide), Coin_round_trip.2.2 9 (by decide) (by decide)⟩

example : (CScriptCompressor.Compress toyCrypto toyCoin.out.scriptPubKey).map List.head? = some (some 0x05) := by
  decide

/-- The wrap-around of the `uint64_t` loop: the code `184467440740` stands for
`18446744074 * 10^9`, which `DecompressAmount` returns modulo `2^64` as an amount far
below `MAX_MONEY`, and that amount compresses to another code. -/
theorem DecompressAmount_wraps :
    DecompressAmount 184467440740 = 290448384 ∧ (290448384 : Int) ≤ MAX_MONEY ∧
      CompressAmount (DecompressAmount 184467440740) ≠ 184467440740 := by
  have hdec : DecompressAmount 184467440740 = 290448384 := by decide
  have hstrip : stripZeros 290448384 0 = (290448384, 0) := by
    rw [stripZeros, if_neg (by decide)]
  refine ⟨hdec, by decide, ?_⟩
  rw [hdec, CompressAmount_of_stripZeros (by decide) hstrip]
  decide

end BitcoinPQ

import BitcoinPQ.Models.Primitives.Transaction

/-!
# Public keys and extended public keys

`pubkey.h`: a `CPubKey` stores the bytes of an ECDSA or an XMSS public key, told
apart by the header byte. `CExtPubKey` is the BIP32 extended key; this fork writes an
XMSS key as its raw bytes, while its `CSizeComputer` overload still counts the
74-byte BIP32 encoding.
-/

namespace BitcoinPQ

open Wire

def ECDSA_PUBLIC_KEY_SIZE : Nat := 65
def ECDSA_COMPRESSED_PUBLIC_KEY_SIZE : Nat := 33
def XMSS_256_PUBLIC_KEY_SIZE : Nat := 69
def HDR_XMSS_V1 : UInt8 := 16

/-- `BIP32_EXTKEY_SIZE`. -/
def BIP32_EXTKEY_SIZE : Nat := 74

/-- `bpqcrypto::is_ecdsa_pubkey`: a canonical ECDSA key, 65 bytes after the header
`0x04` or 33 after `0x02` or `0x03`. -/
def is_ecdsa_pubkey (pubkey : List UInt8) : Bool :=
  if pubkey.length < ECDSA_COMPRESSED_PUBLIC_KEY_SIZE then false
  else if pubkey.head? = some 0x04 then pubkey.length == ECDSA_PUBLIC_KEY_SIZE
  else if pubkey.head? = some 0x02 ∨ pubkey.head? = some 0x03 then
    pubkey.length == ECDSA_COMPRESSED_PUBLIC_KEY_SIZE
  else false

/-- `bpqcrypto::check_pubkey`: by the header byte, an ECDSA key, a hybrid key of 33 to
65 bytes, or else an XMSS key. The XMSS test of the library is a parameter. -/
def check_pubkey (is_xmss_pubkey : List UInt8 → Bool) (data : List UInt8) : Bool :=
  match data.head? with
  | none => false
  | some header =>
    if header = 2 ∨ header = 3 ∨ header = 4 then is_ecdsa_pubkey data
    else if header = 6 ∨ header = 7 then 33 ≤ data.length && data.length ≤ 65
    else is_xmss_pubkey data

/-- A 65-byte key behind the header `0x04` is an uncompressed ECDSA key that
`check_pubkey` accepts. -/
theorem check_pubkey_uncompressed (is_xmss_pubkey : List UInt8 → Bool) {data : List UInt8}
    (hlen : data.length = ECDSA_PUBLIC_KEY_SIZE) (hhead : data.head? = some 4) :
    check_pubkey is_xmss_pubkey data = true := by
  have hecdsa : is_ecdsa_pubkey data = true := by
    rw [is_ecdsa_pubkey, if_neg (by rw [hlen]; decide), if_pos hhead, hlen]
    rfl
  rw [check_pubkey, hhead]
  exact (if_pos (Or.inr (Or.inr rfl))).trans hecdsa

/-- A 33-byte key behind the header `0x02` or `0x03` is a compressed ECDSA key that
`check_pubkey` accepts. -/
theorem check_pubkey_compressed (is_xmss_pubkey : List UInt8 → Bool) {data : List UInt8}
    (hlen : data.length = ECDSA_COMPRESSED_PUBLIC_KEY_SIZE)
    (hhead : data.head? = some 2 ∨ data.head? = some 3) :
    check_pubkey is_xmss_pubkey data = true := by
  have hecdsa : is_ecdsa_pubkey data = true := by
    have hne : data.head? ≠ some 4 := by rcases hhead with h | h <;> rw [h] <;> decide
    rw [is_ecdsa_pubkey, if_neg (by rw [hlen]; decide), if_neg hne, if_pos hhead, hlen]
    rfl
  obtain ⟨header, hh, hheader⟩ : ∃ header, data.head? = some header ∧ (header = 2 ∨ header = 3) := by
    rcases hhead with h | h
    · exact ⟨2, h, Or.inl rfl⟩
    · exact ⟨3, h, Or.inr rfl⟩
  rw [check_pubkey, hh]
  exact (if_pos (hheader.elim Or.inl (fun h => Or.inr (Or.inl h)))).trans hecdsa

/-- `CPubKey`: the key's bytes, empty when invalid. -/
structure CPubKey where
  vch : List UInt8
  deriving DecidableEq

namespace CPubKey

/-- `CPubKey::Set`: the bytes that `check_pubkey` accepts, the invalid key otherwise. -/
def Set (is_xmss_pubkey : List UInt8 → Bool) (data : List UInt8) : CPubKey :=
  if check_pubkey is_xmss_pubkey data then ⟨data⟩ else ⟨[]⟩

theorem Set_of_check {is_xmss_pubkey : List UInt8 → Bool} {data : List UInt8}
    (h : check_pubkey is_xmss_pubkey data = true) : Set is_xmss_pubkey data = ⟨data⟩ := by
  rw [Set, if_pos h]

def size (k : CPubKey) : Nat := k.vch.length

/-- `CPubKey::IsValid`, which `CheckSig` relies on. -/
def IsValid (k : CPubKey) : Bool := k.size > 0

def IsCompressed (k : CPubKey) : Bool := k.size == ECDSA_COMPRESSED_PUBLIC_KEY_SIZE

def IsXMSS (k : CPubKey) : Bool := k.vch.head? == some HDR_XMSS_V1

/-- `CPubKey::GetLen1`: the length a header byte announces, `0` for none. -/
def GetLen1 (chHeader : UInt8) : Nat :=
  if chHeader = 2 ∨ chHeader = 3 then ECDSA_COMPRESSED_PUBLIC_KEY_SIZE
  else if chHeader = 4 ∨ chHeader = 6 ∨ chHeader = 7 then ECDSA_PUBLIC_KEY_SIZE
  else if chHeader = HDR_XMSS_V1 then XMSS_256_PUBLIC_KEY_SIZE
  else 0

/-- `CPubKey::Serialize`, as a byte vector. -/
def Serialize {σ : Type} (S : OStream σ) (k : CPubKey) : σ :=
  S.append (S.WriteCompactSize k.size) (S.write k.vch)

end CPubKey

/-- `CExtPubKey`. -/
structure CExtPubKey where
  nDepth : UInt8
  vchFingerprint : Vector UInt8 4
  nChild : UInt32
  chaincode : UInt256
  pubkey : CPubKey
  deriving DecidableEq

namespace CExtPubKey

/-- `CExtPubKey::Encode` into the 74-byte BIP32 code: `nChild` big-endian, and the
key copied on the assertion that it is a compressed ECDSA key (`none` where the
assertion fails). -/
def Encode (k : CExtPubKey) : Option (List UInt8) :=
  if k.pubkey.size = ECDSA_COMPRESSED_PUBLIC_KEY_SIZE then
    some ([k.nDepth] ++ k.vchFingerprint.toList ++ (leBytes 4 k.nChild.toNat).reverse ++
      k.chaincode.data ++ k.pubkey.vch)
  else none

/-- The template `CExtPubKey::Serialize`: the raw key for XMSS, the BIP32 code
otherwise, each behind its length. -/
def Serialize {σ : Type} (S : OStream σ) (k : CExtPubKey) : Option σ :=
  if k.pubkey.IsXMSS then
    let len := k.pubkey.size
    some (S.append (S.WriteCompactSize len) (S.write k.pubkey.vch))
  else do
    let code ← k.Encode
    pure (S.append (S.WriteCompactSize BIP32_EXTKEY_SIZE) (S.write code))

/-- The overload `CExtPubKey::Serialize(CSizeComputer&)`, which `GetSerializeSize`
selects: one CompactSize byte and the BIP32 code, for every key. -/
def SerializeSize (_k : CExtPubKey) : Nat := BIP32_EXTKEY_SIZE + 1

end CExtPubKey

end BitcoinPQ

import BitcoinPQ.Models.Encoding.Base58
import BitcoinPQ.Models.Encoding.ConvertBits
import BitcoinPQ.Models.Encoding.Bech32
import BitcoinPQ.Models.Script.Standard
import BitcoinPQ.Models.Chain.Params

/-!
# Addresses

`DestinationEncoder` and `DecodeDestination` in `base58.cpp`. A key or script hash is
written in Base58Check behind the chain's version byte; a witness program in bech32,
its version as the first 5-bit value and its bytes cut into 5-bit groups, under the
Bitcoin human-readable part, or under the BPQ part for version 1. The decoder tries
Base58Check first, then bech32, and reads the variant back from the version byte or
from the human-readable part, the witness version and the program length.

The double SHA-256 of the checksum is the parameter `Hash`. Every result holds for each
hash function: a string in bech32 never passes for a versioned hash in Base58Check,
because its first character fixes the first byte it decodes to (`leadExcludes`).
-/

namespace BitcoinPQ

open Digits

/-! ## The encoder -/

/-- The 5-bit values of a witness address: the version, then the program in groups. -/
def witnessValues (version : ℕ) (program : List UInt8) : List ℕ :=
  (ConvertBits 8 5 true [version] (program.map UInt8.toNat)).2

/-- `DestinationEncoder`: the address of a destination, empty for none; `none` only
where an assertion of `EncodeBase58` fails. -/
def EncodeDestination (Hash : List UInt8 → UInt256) (params : CChainParams) :
    CTxDestination → Option (List Char)
  | .CKeyID id => EncodeBase58Check Hash (params.Base58Prefix .PUBKEY_ADDRESS ++ id.data)
  | .CScriptID id => EncodeBase58Check Hash (params.Base58Prefix .SCRIPT_ADDRESS ++ id.data)
  | .WitnessV0KeyHash id => some (bech32.Encode params.Bech32HRP_Bitcoin (witnessValues 0 id.data))
  | .WitnessV0ScriptHash id => some (bech32.Encode params.Bech32HRP_Bitcoin (witnessValues 0 id.data))
  | .WitnessV1ScriptHash id => some (bech32.Encode params.Bech32HRP_BPQ (witnessValues 1 id.data))
  | .WitnessUnknown id =>
    if id.version < 1 ∨ id.version > 16 ∨ id.length < 2 ∨ id.length > 40 then some []
    else
      let data := witnessValues id.version.toUInt8.toNat id.program
      if id.version = 1 then some (bech32.Encode params.Bech32HRP_BPQ data)
      else some (bech32.Encode params.Bech32HRP_Bitcoin data)
  | .CNoDestination => some []

/-! ## The decoder -/

/-- The Base58Check half of `DecodeDestination`: a key or script hash behind its
version prefix, `none` where the decoder goes on to bech32. -/
def decodeBase58Destination (Hash : List UInt8 → UInt256) (str : List Char) (params : CChainParams) :
    Option CTxDestination :=
  (DecodeBase58Check Hash str).bind fun data =>
    -- public-key-hash addresses: the prefix, then `RIPEMD160(SHA256(pubkey))`
    let pubkey_prefix := params.Base58Prefix .PUBKEY_ADDRESS
    if h : data.length = 20 + pubkey_prefix.length ∧ pubkey_prefix.isPrefixOf data then
      some (.CKeyID ⟨data.drop pubkey_prefix.length, by rw [List.length_drop, h.1]; omega⟩)
    else
      -- script-hash addresses: the prefix, then `RIPEMD160(SHA256(cscript))`
      let script_prefix := params.Base58Prefix .SCRIPT_ADDRESS
      if h : data.length = 20 + script_prefix.length ∧ script_prefix.isPrefixOf data then
        some (.CScriptID ⟨data.drop script_prefix.length, by rw [List.length_drop, h.1]; omega⟩)
      else none

/-- The unknown witness program that both bech32 branches fall back to. -/
def unknownWitness (version : ℕ) (data : List ℕ) : CTxDestination :=
  if h : version > 16 ∨ data.length < 2 ∨ data.length > 40 then .CNoDestination
  else .WitnessUnknown ⟨UInt32.ofNat version, data.map UInt8.ofNat, by rw [List.length_map]; omega⟩

/-- The witness program of a version under the Bitcoin human-readable part. -/
def bitcoinWitness (version : ℕ) (data : List ℕ) : CTxDestination :=
  if version = 0 then
    if h : data.length = 20 then .WitnessV0KeyHash ⟨data.map UInt8.ofNat, by rw [List.length_map, h]⟩
    else if h : data.length = 32 then .WitnessV0ScriptHash ⟨data.map UInt8.ofNat, by rw [List.length_map, h]⟩
    else .CNoDestination
  else unknownWitness version data

/-- The witness program of a version under the BPQ human-readable part. -/
def bpqWitness (version : ℕ) (data : List ℕ) : CTxDestination :=
  if version = 1 then
    if h : data.length = 32 then .WitnessV1ScriptHash ⟨data.map UInt8.ofNat, by rw [List.length_map, h]⟩
    else .CNoDestination
  else unknownWitness version data

/-- The bech32 half of `DecodeDestination`, on what `bech32::Decode` returned: the
first value is the witness version, the others the program's bytes in 5-bit groups. -/
def decodeBech32Destination (bech : List Char × List ℕ) (params : CChainParams) : CTxDestination :=
  if bech.2.length > 0 ∧ bech.1 = params.Bech32HRP_Bitcoin then
    match ConvertBits 5 8 false [] bech.2.tail with
    | (true, data) => bitcoinWitness (bech.2.headD 0) data
    | (false, _) => .CNoDestination
  else if bech.2.length > 0 ∧ bech.1 = params.Bech32HRP_BPQ then
    match ConvertBits 5 8 false [] bech.2.tail with
    | (true, data) => bpqWitness (bech.2.headD 0) data
    | (false, _) => .CNoDestination
  else .CNoDestination

/-- `DecodeDestination`. -/
def DecodeDestination (Hash : List UInt8 → UInt256) (str : List Char) (params : CChainParams) :
    CTxDestination :=
  (decodeBase58Destination Hash str params).getD (decodeBech32Destination (bech32.Decode str) params)

/-- What decoding gives back for the address of a destination: the destination itself,
except that an unknown witness of version 1, written under the BPQ part, is read as a
`WitnessV1ScriptHash` when its program has 32 bytes and as no destination otherwise. -/
def decodedDestination : CTxDestination → CTxDestination
  | .WitnessUnknown w =>
    if w.version = 1 then
      if h : w.program.length = 32 then .WitnessV1ScriptHash ⟨w.program, h⟩ else .CNoDestination
    else .WitnessUnknown w
  | d => d

/-! ## Base58Check strings that start like a bech32 address -/

/-- No number in `[d * 58 ^ n, (d + 1) * 58 ^ n)` with `n < 36` is written in 25 bytes
with `p` first. -/
def firstByteExcluded (d p : ℕ) : Bool :=
  (List.range 36).all fun n =>
    decide (min ((d + 1) * 58 ^ n) ((p + 1) * 256 ^ 24) ≤ max (d * 58 ^ n) (max (p * 256 ^ 24) (256 ^ 24)))

/-- No Base58Check string that starts with `c` decodes to 25 bytes that start with `p`:
`c` is outside the alphabet, or its digit rules the byte out. -/
def leadExcludes (c : Char) (p : UInt8) : Bool :=
  match base58Digit c with
  | none => true
  | some d => d != 0 && firstByteExcluded d p.toNat

/-- The first byte of 25, `N / 256 ^ 24`, is not one that the window test excludes. -/
theorem div_ne_of_firstByteExcluded {d p n N : ℕ} (hex : firstByteExcluded d p = true) (hd : d ≠ 0)
    (hlo : d * 58 ^ n ≤ N) (hhi : N < (d + 1) * 58 ^ n) (hN : 256 ^ 24 ≤ N) (hN' : N < 256 ^ 25) :
    N / 256 ^ 24 ≠ p := by
  intro hp
  have hge : p * 256 ^ 24 ≤ N := hp ▸ Nat.div_mul_le_self N _
  have hlt : N < (p + 1) * 256 ^ 24 := by
    have h := Nat.lt_mul_div_succ N (show 0 < 256 ^ 24 by positivity)
    rw [hp, mul_comm] at h
    exact h
  -- with 36 digits or more the number needs more than 25 bytes
  have hn : n < 36 := by
    by_contra hn
    have h58 : 58 ^ 36 ≤ 58 ^ n := Nat.pow_le_pow_right (by norm_num) (by omega)
    have hbig : 256 ^ 25 < 58 ^ 36 := by decide
    have hdn : 58 ^ n ≤ d * 58 ^ n := Nat.le_mul_of_pos_left _ (Nat.pos_of_ne_zero hd)
    omega
  have hwin := of_decide_eq_true (List.all_eq_true.mp hex n (List.mem_range.mpr hn))
  omega

/-- A printable string whose first character rules out the byte `p` does not decode in
Base58Check to 21 bytes that start with `p`. -/
theorem DecodeBase58Check_head_ne {Hash : List UInt8 → UInt256} {c : Char} {cs : List Char} {p : UInt8}
    (hex : leadExcludes c p = true) (hprint : ∀ c' ∈ c :: cs, 33 ≤ c'.toNat) {data : List UInt8}
    (hdec : DecodeBase58Check Hash (c :: cs) = some data) (hlen : data.length = 21) :
    data.head? ≠ some p := by
  have hspace : ∀ c' ∈ c :: cs, isspace c' = false := fun c' hc' => (isspace_of_le (hprint c' hc')).1
  have hnul : ∀ c' ∈ c :: cs, c' ≠ Char.ofNat 0 := fun c' hc' => (isspace_of_le (hprint c' hc')).2
  obtain ⟨vch, hvch, hvlen, hdata⟩ := DecodeBase58Check_eq_some hdec
  have hhead : data.head? = vch.head? := by
    rw [hdata, List.head?_take, if_neg (by omega)]
  rw [hhead]
  cases hd : base58Digit c with
  | none =>
    rw [DecodeBase58_of_base58Digit_none hd hspace hnul] at hvch
    cases hvch
  | some d =>
    rw [leadExcludes, hd] at hex
    simp only [Bool.and_eq_true, bne_iff_ne, ne_eq] at hex
    obtain ⟨hd0, hex⟩ := hex
    obtain ⟨N, hlo, hhi, hN, hN', hvhead⟩ := DecodeBase58_head hd hd0 hspace hnul (k := 24) hvch (by omega)
    rw [hvhead]
    intro heq
    have hq : N / 256 ^ 24 < 256 := Nat.div_lt_of_lt_mul (by rw [← pow_succ]; exact hN')
    have hpq : N / 256 ^ 24 = p.toNat := by
      have h := congrArg UInt8.toNat (Option.some.inj heq)
      rwa [UInt8.toNat_ofNat_of_lt' hq] at h
    exact div_ne_of_firstByteExcluded hex hd0 hlo hhi hN hN' hpq

/-! ## The chains' parameters -/

/-- What the address code needs of a chain's parameters: one-byte version prefixes that
differ; two different human-readable parts of at most four printable characters, none
of them upper case, whose first character rules out both version bytes. -/
structure AddressParams (params : CChainParams) : Prop where
  pubkey_length : (params.Base58Prefix .PUBKEY_ADDRESS).length = 1
  script_length : (params.Base58Prefix .SCRIPT_ADDRESS).length = 1
  prefix_ne : params.Base58Prefix .PUBKEY_ADDRESS ≠ params.Base58Prefix .SCRIPT_ADDRESS
  hrp_ne : params.Bech32HRP_Bitcoin ≠ params.Bech32HRP_BPQ
  hrp_ok : ∀ hrp ∈ [params.Bech32HRP_Bitcoin, params.Bech32HRP_BPQ], hrp ≠ [] ∧ hrp.length ≤ 4 ∧
    (∀ c ∈ hrp, bech32.isPrintable c = true ∧ bech32.isUpper c = false) ∧
    ∀ p ∈ params.Base58Prefix .PUBKEY_ADDRESS ++ params.Base58Prefix .SCRIPT_ADDRESS,
      leadExcludes (hrp.headD ' ') p = true

theorem mainParams_address : AddressParams mainParams := by
  refine ⟨by decide, by decide, by decide, by decide, ?_⟩
  -- spell the quantifiers out before deciding: a bare ∀ over Char would be decided by
  -- running through every character
  simp only [CChainParams.Bech32HRP_Bitcoin, CChainParams.Bech32HRP_BPQ, CChainParams.Base58Prefix,
    mainParams, List.forall_mem_cons, List.cons_append, List.nil_append, List.not_mem_nil,
    IsEmpty.forall_iff, forall_const, and_true]
  decide

theorem testNetParams_address : AddressParams testNetParams := by
  refine ⟨by decide, by decide, by decide, by decide, ?_⟩
  simp only [CChainParams.Bech32HRP_Bitcoin, CChainParams.Bech32HRP_BPQ, CChainParams.Base58Prefix,
    testNetParams, List.forall_mem_cons, List.cons_append, List.nil_append, List.not_mem_nil,
    IsEmpty.forall_iff, forall_const, and_true]
  decide

theorem regTestParams_address : AddressParams regTestParams := by
  refine ⟨by decide, by decide, by decide, by decide, ?_⟩
  simp only [CChainParams.Bech32HRP_Bitcoin, CChainParams.Bech32HRP_BPQ, CChainParams.Base58Prefix,
    regTestParams, List.forall_mem_cons, List.cons_append, List.nil_append, List.not_mem_nil,
    IsEmpty.forall_iff, forall_const, and_true]
  decide

/-! ## Reading addresses back -/

theorem UInt160.eq_of_data {a b : UInt160} (h : a.data = b.data) : a = b := by
  cases a
  cases b
  cases h
  rfl

theorem UInt256.eq_of_data {a b : UInt256} (h : a.data = b.data) : a = b := by
  cases a
  cases b
  cases h
  rfl

theorem map_ofNat_map_toNat (l : List UInt8) : (l.map UInt8.toNat).map UInt8.ofNat = l := by
  rw [List.map_map]
  conv_rhs => rw [← List.map_id l]
  exact List.map_congr_left fun x _ => UInt8.ofNat_toNat

/-- `EncodeBase58Check` succeeds, and `DecodeBase58Check` reads its string back. -/
theorem exists_EncodeBase58Check (Hash : List UInt8 → UInt256) (v : List UInt8) :
    ∃ str, EncodeBase58Check Hash v = some str ∧ DecodeBase58Check Hash str = some v := by
  obtain ⟨str, hstr⟩ : ∃ str, EncodeBase58Check Hash v = some str := ⟨_, EncodeBase58_eq _⟩
  have h := DecodeBase58Check_EncodeBase58Check Hash v
  rw [hstr, Option.bind_some] at h
  exact ⟨str, hstr, h⟩

/-- A hash behind a prefix passes the decoder's test for that prefix. -/
theorem prefix_versioned (pre : List UInt8) (id : UInt160) :
    (pre ++ id.data).length = 20 + pre.length ∧ pre.isPrefixOf (pre ++ id.data) = true :=
  ⟨by rw [List.length_append, id.size_eq, Nat.add_comm], List.isPrefixOf_iff_prefix.mpr (List.prefix_append _ _)⟩

theorem head?_of_isPrefixOf_singleton {p : UInt8} {data : List UInt8} (h : [p].isPrefixOf data = true) :
    data.head? = some p := by
  cases data with
  | nil => cases h
  | cons b bs =>
    simp only [List.isPrefixOf, Bool.and_eq_true, beq_iff_eq] at h
    rw [h.1]
    rfl

/-- The address of a key hash reads back: its prefix is the first the decoder tries. -/
theorem DecodeDestination_keyID (Hash : List UInt8 → UInt256) (params : CChainParams) (id : UInt160) :
    ∃ str, EncodeDestination Hash params (.CKeyID id) = some str ∧
      DecodeDestination Hash str params = .CKeyID id := by
  obtain ⟨str, henc, hdec⟩ := exists_EncodeBase58Check Hash (params.Base58Prefix .PUBKEY_ADDRESS ++ id.data)
  refine ⟨str, henc, ?_⟩
  have hbase : decodeBase58Destination Hash str params = some (.CKeyID id) := by
    rw [decodeBase58Destination, hdec, Option.bind_some]
    dsimp only
    rw [dif_pos (prefix_versioned _ id)]
    exact congrArg (fun id => some (CTxDestination.CKeyID id)) (UInt160.eq_of_data List.drop_left)
  rw [DecodeDestination, hbase, Option.getD_some]

/-- The address of a script hash reads back: it fails the public-key-hash test, whose
prefix differs. -/
theorem DecodeDestination_scriptID (Hash : List UInt8 → UInt256) {params : CChainParams}
    (hp : AddressParams params) (id : UInt160) :
    ∃ str, EncodeDestination Hash params (.CScriptID id) = some str ∧
      DecodeDestination Hash str params = .CScriptID id := by
  obtain ⟨str, henc, hdec⟩ := exists_EncodeBase58Check Hash (params.Base58Prefix .SCRIPT_ADDRESS ++ id.data)
  refine ⟨str, henc, ?_⟩
  obtain ⟨p1, hp1⟩ := List.length_eq_one_iff.mp hp.pubkey_length
  obtain ⟨p2, hp2⟩ := List.length_eq_one_iff.mp hp.script_length
  have hne : p1 ≠ p2 := fun h => hp.prefix_ne (by rw [hp1, hp2, h])
  have hnot : ¬((params.Base58Prefix .SCRIPT_ADDRESS ++ id.data).length =
      20 + (params.Base58Prefix .PUBKEY_ADDRESS).length ∧
      (params.Base58Prefix .PUBKEY_ADDRESS).isPrefixOf (params.Base58Prefix .SCRIPT_ADDRESS ++ id.data) = true) := by
    rw [hp1, hp2]
    rintro ⟨-, hpre⟩
    simp [List.isPrefixOf, hne] at hpre
  have hbase : decodeBase58Destination Hash str params = some (.CScriptID id) := by
    rw [decodeBase58Destination, hdec, Option.bind_some]
    dsimp only
    rw [dif_neg hnot, dif_pos (prefix_versioned _ id)]
    exact congrArg (fun id => some (CTxDestination.CScriptID id)) (UInt160.eq_of_data List.drop_left)
  rw [DecodeDestination, hbase, Option.getD_some]

/-- A one-byte prefix that the first character rules out is not found. -/
theorem not_versioned_of_leadExcludes {Hash : List UInt8 → UInt256} {c : Char} {cs : List Char}
    (hprint : ∀ c' ∈ c :: cs, 33 ≤ c'.toNat) {pre : List UInt8} (hlen1 : pre.length = 1)
    (hexcl : ∀ p ∈ pre, leadExcludes c p = true) {data : List UInt8}
    (hdec : DecodeBase58Check Hash (c :: cs) = some data) :
    ¬(data.length = 20 + pre.length ∧ pre.isPrefixOf data = true) := by
  obtain ⟨p, rfl⟩ := List.length_eq_one_iff.mp hlen1
  rintro ⟨hlen, hisp⟩
  exact DecodeBase58Check_head_ne (hexcl p (List.mem_singleton_self p)) hprint hdec hlen
    (head?_of_isPrefixOf_singleton hisp)

/-- The Base58Check half finds no versioned hash in a printable string whose first
character rules out the chain's version bytes. -/
theorem decodeBase58Destination_eq_none (Hash : List UInt8 → UInt256) {params : CChainParams}
    (hp : AddressParams params) {c : Char} {cs : List Char} (hprint : ∀ c' ∈ c :: cs, 33 ≤ c'.toNat)
    (hexcl : ∀ p ∈ params.Base58Prefix .PUBKEY_ADDRESS ++ params.Base58Prefix .SCRIPT_ADDRESS,
      leadExcludes c p = true) :
    decodeBase58Destination Hash (c :: cs) params = none := by
  cases hdec : DecodeBase58Check Hash (c :: cs) with
  | none =>
    rw [decodeBase58Destination, hdec]
    rfl
  | some data =>
    rw [decodeBase58Destination, hdec, Option.bind_some]
    dsimp only
    rw [dif_neg (not_versioned_of_leadExcludes hprint hp.pubkey_length
        (fun p h => hexcl p (List.mem_append_left _ h)) hdec),
      dif_neg (not_versioned_of_leadExcludes hprint hp.script_length
        (fun p h => hexcl p (List.mem_append_right _ h)) hdec)]

/-- A bech32 string under one of the chain's parts is read by the bech32 half. -/
theorem DecodeDestination_Encode (Hash : List UInt8 → UInt256) {params : CChainParams}
    (hp : AddressParams params) {hrp : List Char} (hhrp : hrp ∈ [params.Bech32HRP_Bitcoin, params.Bech32HRP_BPQ])
    {values : List ℕ} (hvalues : ∀ v ∈ values, v < 32) (hsize : values.length ≤ 79) :
    DecodeDestination Hash (bech32.Encode hrp values) params = decodeBech32Destination (hrp, values) params := by
  obtain ⟨hne, hlen, hchars, hexcl⟩ := hp.hrp_ok hrp hhrp
  have hprint : ∀ c ∈ bech32.Encode hrp values, 33 ≤ c.toNat := fun c hc =>
    bech32.le_toNat_of_isPrintable (bech32.isPrintable_of_mem_Encode (fun c hc => (hchars c hc).1) hvalues c hc)
  -- the Base58Check half sees the first character of the human-readable part
  have hbase : decodeBase58Destination Hash (bech32.Encode hrp values) params = none := by
    obtain ⟨c, cs, hcs⟩ := List.exists_cons_of_ne_nil hne
    rw [hcs] at hexcl
    rw [bech32.Encode_eq, hcs, List.cons_append] at hprint ⊢
    exact decodeBase58Destination_eq_none Hash hp hprint hexcl
  rw [DecodeDestination, hbase, Option.getD_none,
    bech32.Decode_Encode hne (fun c hc => (hchars c hc).1) (fun c hc => (hchars c hc).2) hvalues (by omega)]

/-- The 5-bit values of a witness address: the version, then groups that read back as
the program's bytes. -/
theorem witnessValues_spec {version : ℕ} (hv : version < 32) (program : List UInt8) :
    ∃ groups, witnessValues version program = version :: groups ∧ (∀ v ∈ version :: groups, v < 32) ∧
      groups.length = (program.length * 8 + 4) / 5 ∧
      ConvertBits 5 8 false [] groups = (true, program.map UInt8.toNat) := by
  have hbytes : ∀ x ∈ program.map UInt8.toNat, x < 256 := fun x hx => by
    obtain ⟨y, -, rfl⟩ := List.mem_map.mp hx
    exact y.toNat_lt
  obtain ⟨groups, henc, hlt, hlen, hdec⟩ := ConvertBits_8_5_inverse hbytes [version]
  rw [List.length_map] at hlen
  refine ⟨groups, by rw [witnessValues, henc]; rfl, ?_, hlen, hdec⟩
  intro v hv'
  rcases List.mem_cons.mp hv' with rfl | hv'
  · exact hv
  · exact hlt v hv'

theorem decodeBech32Destination_bitcoin {params : CChainParams} {version : ℕ} {groups bytes : List ℕ}
    (hconv : ConvertBits 5 8 false [] groups = (true, bytes)) :
    decodeBech32Destination (params.Bech32HRP_Bitcoin, version :: groups) params = bitcoinWitness version bytes := by
  rw [decodeBech32Destination, if_pos ⟨by simp, rfl⟩]
  simp only [List.tail_cons, List.headD_cons, hconv]

theorem decodeBech32Destination_bpq {params : CChainParams} (hp : AddressParams params) {version : ℕ}
    {groups bytes : List ℕ} (hconv : ConvertBits 5 8 false [] groups = (true, bytes)) :
    decodeBech32Destination (params.Bech32HRP_BPQ, version :: groups) params = bpqWitness version bytes := by
  rw [decodeBech32Destination, if_neg (fun h => hp.hrp_ne h.2.symm), if_pos ⟨by simp, rfl⟩]
  simp only [List.tail_cons, List.headD_cons, hconv]

/-- A witness address under the Bitcoin part reads back as its version and program. -/
theorem DecodeDestination_bitcoinAddress (Hash : List UInt8 → UInt256) {params : CChainParams}
    (hp : AddressParams params) {version : ℕ} (hv : version < 32) {program : List UInt8}
    (hlen : program.length ≤ 40) :
    DecodeDestination Hash (bech32.Encode params.Bech32HRP_Bitcoin (witnessValues version program)) params =
      bitcoinWitness version (program.map UInt8.toNat) := by
  obtain ⟨groups, hvals, hlt, hglen, hconv⟩ := witnessValues_spec hv program
  rw [hvals, DecodeDestination_Encode Hash hp (List.mem_cons_self ..) hlt (by rw [List.length_cons, hglen]; omega),
    decodeBech32Destination_bitcoin hconv]

/-- A witness address under the BPQ part reads back as its version and program. -/
theorem DecodeDestination_bpqAddress (Hash : List UInt8 → UInt256) {params : CChainParams}
    (hp : AddressParams params) {version : ℕ} (hv : version < 32) {program : List UInt8}
    (hlen : program.length ≤ 40) :
    DecodeDestination Hash (bech32.Encode params.Bech32HRP_BPQ (witnessValues version program)) params =
      bpqWitness version (program.map UInt8.toNat) := by
  obtain ⟨groups, hvals, hlt, hglen, hconv⟩ := witnessValues_spec hv program
  rw [hvals, DecodeDestination_Encode Hash hp (List.mem_cons_of_mem _ (List.mem_singleton_self _)) hlt
      (by rw [List.length_cons, hglen]; omega),
    decodeBech32Destination_bpq hp hconv]

/-! ## Each variant -/

theorem bitcoinWitness_keyHash (id : UInt160) :
    bitcoinWitness 0 (id.data.map UInt8.toNat) = .WitnessV0KeyHash id := by
  rw [bitcoinWitness, if_pos rfl, dif_pos (by rw [List.length_map, id.size_eq])]
  exact congrArg CTxDestination.WitnessV0KeyHash (UInt160.eq_of_data (map_ofNat_map_toNat _))

theorem bitcoinWitness_scriptHash (id : UInt256) :
    bitcoinWitness 0 (id.data.map UInt8.toNat) = .WitnessV0ScriptHash id := by
  have hlen : (id.data.map UInt8.toNat).length = 32 := by rw [List.length_map, id.size_eq]
  rw [bitcoinWitness, if_pos rfl, dif_neg (by omega), dif_pos hlen]
  exact congrArg CTxDestination.WitnessV0ScriptHash (UInt256.eq_of_data (map_ofNat_map_toNat _))

theorem bpqWitness_scriptHash (id : UInt256) :
    bpqWitness 1 (id.data.map UInt8.toNat) = .WitnessV1ScriptHash id := by
  rw [bpqWitness, if_pos rfl, dif_pos (by rw [List.length_map, id.size_eq])]
  exact congrArg CTxDestination.WitnessV1ScriptHash (UInt256.eq_of_data (map_ofNat_map_toNat _))

/-- An unknown witness within the encoder's bounds is rebuilt from its version and bytes. -/
theorem unknownWitness_eq (w : WitnessUnknown) (hv : w.version.toNat ≤ 16) (hlen : 2 ≤ w.length) :
    unknownWitness w.version.toNat (w.program.map UInt8.toNat) = .WitnessUnknown w := by
  have hbounds : ¬(w.version.toNat > 16 ∨ (w.program.map UInt8.toNat).length < 2 ∨
      (w.program.map UInt8.toNat).length > 40) := by
    rw [List.length_map]
    have := w.length_le
    rw [WitnessUnknown.length] at hlen
    omega
  rw [unknownWitness, dif_neg hbounds]
  cases w with
  | mk version program length_le =>
    rw [CTxDestination.WitnessUnknown.injEq, WitnessUnknown.mk.injEq]
    exact ⟨UInt32.ofNat_toNat, map_ofNat_map_toNat program⟩

/-- An unknown witness of version 1 is read back under the BPQ part as
`decodedDestination` says. -/
theorem bpqWitness_unknown_v1 (w : WitnessUnknown) (h1 : w.version = 1) :
    bpqWitness 1 (w.program.map UInt8.toNat) = decodedDestination (.WitnessUnknown w) := by
  rw [bpqWitness, if_pos rfl, decodedDestination, if_pos h1]
  by_cases h32 : w.program.length = 32
  · rw [dif_pos (by rwa [List.length_map] : (w.program.map UInt8.toNat).length = 32), dif_pos h32]
    exact congrArg CTxDestination.WitnessV1ScriptHash (UInt256.eq_of_data (map_ofNat_map_toNat _))
  · rw [dif_neg (by rwa [List.length_map] : ¬(w.program.map UInt8.toNat).length = 32), dif_neg h32]

/-- The encoder's bounds on an unknown witness, read on the version's number. -/
theorem WitnessUnknown.bounds_of_encoded {w : WitnessUnknown}
    (h : ¬(w.version < 1 ∨ w.version > 16 ∨ w.length < 2 ∨ w.length > 40)) :
    1 ≤ w.version.toNat ∧ w.version.toNat ≤ 16 ∧ 2 ≤ w.length := by
  simp only [not_or, UInt32.lt_iff_toNat_lt, UInt32.reduceToNat, not_lt] at h
  omega

/-- An unknown witness within the bounds is read back as `decodedDestination` says:
itself under the Bitcoin part, and under the BPQ part for version 1. -/
theorem DecodeDestination_witnessUnknown (Hash : List UInt8 → UInt256) {params : CChainParams}
    (hp : AddressParams params) (w : WitnessUnknown)
    (hne : EncodeDestination Hash params (.WitnessUnknown w) ≠ some []) :
    ∃ str, EncodeDestination Hash params (.WitnessUnknown w) = some str ∧
      DecodeDestination Hash str params = decodedDestination (.WitnessUnknown w) := by
  have hbounds : ¬(w.version < 1 ∨ w.version > 16 ∨ w.length < 2 ∨ w.length > 40) := fun h =>
    hne (by rw [EncodeDestination, if_pos h])
  obtain ⟨hv1, hv16, hlen⟩ := WitnessUnknown.bounds_of_encoded hbounds
  -- the version is written as its low byte, which is the whole number here
  have hver : w.version.toUInt8.toNat = w.version.toNat := by
    rw [UInt32.toNat_toUInt8]
    exact Nat.mod_eq_of_lt (by omega)
  rw [EncodeDestination, if_neg hbounds]
  dsimp only
  rw [hver]
  by_cases h1 : w.version = 1
  · rw [if_pos h1]
    refine ⟨_, rfl, ?_⟩
    have hnat : w.version.toNat = 1 := by rw [h1]; rfl
    rw [DecodeDestination_bpqAddress Hash hp (by omega) w.length_le, hnat, bpqWitness_unknown_v1 w h1]
  · rw [if_neg h1]
    refine ⟨_, rfl, ?_⟩
    have hnat : w.version.toNat ≠ 0 := by omega
    rw [DecodeDestination_bitcoinAddress Hash hp (by omega) w.length_le, bitcoinWitness, if_neg hnat,
      unknownWitness_eq w hv16 hlen, decodedDestination, if_neg h1]

/-- Every destination with a non-empty address is read back as `decodedDestination`
says, on a chain whose parameters the address code can tell apart. -/
theorem DecodeDestination_EncodeDestination_of_AddressParams (Hash : List UInt8 → UInt256)
    {params : CChainParams} (hp : AddressParams params) (d : CTxDestination)
    (hne : EncodeDestination Hash params d ≠ some []) :
    ∃ str, EncodeDestination Hash params d = some str ∧
      DecodeDestination Hash str params = decodedDestination d := by
  cases d with
  | CNoDestination => exact absurd rfl hne
  | CKeyID id => exact DecodeDestination_keyID Hash params id
  | CScriptID id => exact DecodeDestination_scriptID Hash hp id
  | WitnessV0ScriptHash id =>
    refine ⟨_, rfl, ?_⟩
    rw [DecodeDestination_bitcoinAddress Hash hp (by norm_num) (by rw [id.size_eq]; norm_num)]
    exact bitcoinWitness_scriptHash id
  | WitnessV0KeyHash id =>
    refine ⟨_, rfl, ?_⟩
    rw [DecodeDestination_bitcoinAddress Hash hp (by norm_num) (by rw [id.size_eq]; norm_num)]
    exact bitcoinWitness_keyHash id
  | WitnessV1ScriptHash id =>
    refine ⟨_, rfl, ?_⟩
    rw [DecodeDestination_bpqAddress Hash hp (by norm_num) (by rw [id.size_eq]; norm_num)]
    exact bpqWitness_scriptHash id
  | WitnessUnknown w => exact DecodeDestination_witnessUnknown Hash hp w hne

/-- On the main, test and regression chains, every destination with a non-empty address
is read back as `decodedDestination` says. -/
theorem DecodeDestination_EncodeDestination (Hash : List UInt8 → UInt256) {params : CChainParams}
    (hparams : params = mainParams ∨ params = testNetParams ∨ params = regTestParams) (d : CTxDestination)
    (hne : EncodeDestination Hash params d ≠ some []) :
    ∃ str, EncodeDestination Hash params d = some str ∧
      DecodeDestination Hash str params = decodedDestination d := by
  have hp : AddressParams params := by
    rcases hparams with rfl | rfl | rfl
    · exact mainParams_address
    · exact testNetParams_address
    · exact regTestParams_address
  exact DecodeDestination_EncodeDestination_of_AddressParams Hash hp d hne

theorem keyHash_address_round_trip :
    EncodeDestination (fun _ => UInt256.zero) mainParams (.WitnessV0KeyHash ⟨List.replicate 20 0, rfl⟩) ≠ some [] ∧
    ∃ str, EncodeDestination (fun _ => UInt256.zero) mainParams
        (.WitnessV0KeyHash ⟨List.replicate 20 0, rfl⟩) = some str ∧
      DecodeDestination (fun _ => UInt256.zero) str mainParams =
        decodedDestination (.WitnessV0KeyHash ⟨List.replicate 20 0, rfl⟩) :=
  have hne : EncodeDestination (fun _ => UInt256.zero) mainParams
      (.WitnessV0KeyHash ⟨List.replicate 20 0, rfl⟩) ≠ some [] :=
    fun h => bech32.Encode_ne_nil _ _ (Option.some.inj h)
  ⟨hne, DecodeDestination_EncodeDestination _ (Or.inl rfl) _ hne⟩

/-- The unknown witness of version 1 with the 33-byte program of a public key, as
`ExtractDestination` returns it for <tt>OP_1 pubkey</tt>, has an address on the main chain
that reads back as no destination. -/
theorem unknownWitness_v1_address_reads_none :
    EncodeDestination (fun _ => UInt256.zero) mainParams
        (.WitnessUnknown ⟨1, List.replicate 33 0, by decide⟩) ≠ some [] ∧
    ∃ str, EncodeDestination (fun _ => UInt256.zero) mainParams
        (.WitnessUnknown ⟨1, List.replicate 33 0, by decide⟩) = some str ∧
      DecodeDestination (fun _ => UInt256.zero) str mainParams = .CNoDestination := by
  have hne : EncodeDestination (fun _ => UInt256.zero) mainParams
      (.WitnessUnknown ⟨1, List.replicate 33 0, by decide⟩) ≠ some [] := by decide
  obtain ⟨str, henc, hdec⟩ := DecodeDestination_witnessUnknown _ mainParams_address _ hne
  exact ⟨hne, str, henc, hdec.trans (by decide)⟩

end BitcoinPQ

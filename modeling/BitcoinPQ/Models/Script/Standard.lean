import BitcoinPQ.Models.Script.Script
import BitcoinPQ.Models.Keys.PubKey

/-!
# Standard scripts and destinations

`script/standard.cpp`: `Solver` classifies an output script by the pay-to-script-hash
shortcut, the witness-program test, the data-carrier test and a scan of five templates;
`ExtractDestination` reads a destination off that classification, and
`GetScriptForDestination` builds the script of a destination. This fork gave witness
version 1 with a 32-byte program a type of its own, which takes that case from
`WitnessUnknown`: every destination is read back from its script except the unknown
witness of version 1 with a 32-byte program, which comes back as a
`WitnessV1ScriptHash` of the same bytes.

The hash functions and the XMSS key test of `bpqcrypto` are parameters.
-/

namespace BitcoinPQ

open Wire

/-- `uint160`: 20 raw bytes. -/
structure UInt160 where
  data : List UInt8
  size_eq : data.length = 20
  deriving DecidableEq

/-- A hash read from a solution: `uint160(vch)` asserts the size and `std::copy`
fills the hash, and `Solver` gives each exactly that many bytes. `none` where the
size differs. -/
def UInt160.ofBytes (vch : List UInt8) : Option UInt160 :=
  if h : vch.length = 20 then some ⟨vch, h⟩ else none

/-- A 32-byte hash copied from a solution, `none` where the size differs. -/
def UInt256.ofBytes (vch : List UInt8) : Option UInt256 :=
  if h : vch.length = 32 then some ⟨vch, h⟩ else none

@[simp] theorem UInt160.ofBytes_data (id : UInt160) : UInt160.ofBytes id.data = some id := by
  rw [UInt160.ofBytes, dif_pos id.size_eq]

@[simp] theorem UInt256.ofBytes_data (id : UInt256) : UInt256.ofBytes id.data = some id := by
  rw [UInt256.ofBytes, dif_pos id.size_eq]

/-- The hash functions and the XMSS key test that the script code calls. -/
structure ScriptHashes where
  /-- `bpqcrypto::is_xmss_pubkey`. -/
  is_xmss_pubkey : List UInt8 → Bool
  /-- `CRIPEMD160`. -/
  RIPEMD160 : List UInt8 → UInt160
  /-- `CSHA256`. -/
  SHA256 : List UInt8 → UInt256
  /-- `bpqcrypto::hash256_shake128`. -/
  hash256_shake128 : List UInt8 → UInt256

/-- `Hash160`: RIPEMD-160 of SHA-256. -/
def ScriptHashes.Hash160 (H : ScriptHashes) (vch : List UInt8) : UInt160 :=
  H.RIPEMD160 (H.SHA256 vch).data

/-- `CPubKey::GetID`. -/
def CPubKey.GetID (H : ScriptHashes) (k : CPubKey) : UInt160 := H.Hash160 k.vch

/-! ## Destinations -/

/-- `txnouttype`. -/
inductive txnouttype where
  | TX_NONSTANDARD
  | TX_PUBKEY
  | TX_PUBKEYHASH
  | TX_SCRIPTHASH
  | TX_MULTISIG
  | TX_NULL_DATA
  | TX_WITNESS_V0_SCRIPTHASH
  | TX_WITNESS_V0_KEYHASH
  | TX_WITNESS_V1_SCRIPTHASH
  | TX_WITNESS_UNKNOWN
  deriving DecidableEq, Repr

/-- `WitnessUnknown`: a witness version and a program of at most 40 bytes. The
source keeps the length in a field and compares only that many program bytes; here
it is the length of the program. -/
structure WitnessUnknown where
  version : UInt32
  program : List UInt8
  length_le : program.length ≤ 40
  deriving DecidableEq

/-- `WitnessUnknown::length`. -/
def WitnessUnknown.length (w : WitnessUnknown) : Nat := w.program.length

/-- `CTxDestination`. -/
inductive CTxDestination where
  | CNoDestination
  | CKeyID (id : UInt160)
  | CScriptID (id : UInt160)
  | WitnessV0ScriptHash (hash : UInt256)
  | WitnessV0KeyHash (hash : UInt160)
  | WitnessV1ScriptHash (hash : UInt256)
  | WitnessUnknown (unk : WitnessUnknown)
  deriving DecidableEq

/-! ## `Solver` -/

/-- The pseudo-opcodes of the templates. -/
def OP_SMALLINTEGER : opcodetype := 0xfa
def OP_PUBKEYS : opcodetype := 0xfb
def OP_PUBKEYHASH : opcodetype := 0xfd
def OP_PUBKEY : opcodetype := 0xfe

/-- `mTemplates`, in the order of the multimap: by type, then as inserted. -/
def mTemplates : List (txnouttype × CScript) :=
  [(.TX_PUBKEY, [OP_PUBKEY, OP_CHECKSIG]),
   (.TX_PUBKEY, [OP_PUBKEY, OP_CHECKSIGVERIFY]),
   (.TX_PUBKEYHASH, [OP_DUP, OP_HASH160, OP_PUBKEYHASH, OP_EQUALVERIFY, OP_CHECKSIG]),
   (.TX_MULTISIG, [OP_SMALLINTEGER, OP_PUBKEYS, OP_SMALLINTEGER, OP_CHECKMULTISIG]),
   (.TX_MULTISIG, [OP_SMALLINTEGER, OP_PUBKEYS, OP_SMALLINTEGER, OP_CHECKMULTISIGVERIFY])]

/-- The `OP_PUBKEYS` loop of the template scan: the data of each instruction that
`check_pubkey` accepts is a solution, up to the first it does not accept or the first
instruction that does not read. -/
def pubkeysLoop (is_xmss_pubkey : List UInt8 → Bool) (vSolutions : List valtype)
    (opcode1 : opcodetype) (vch1 : valtype) (pc1 : List UInt8) :
    List valtype × opcodetype × valtype × List UInt8 :=
  if check_pubkey is_xmss_pubkey vch1 then
    match hop : GetOp2 pc1 with
    | (true, opcode1', vch1', pc1') =>
      have : pc1'.length < pc1.length := by
        have h := GetOp2_length_lt (ne_nil_of_GetOp2 (by rw [hop]))
        rw [hop] at h
        exact h
      pubkeysLoop is_xmss_pubkey (vSolutions ++ [vch1]) opcode1' vch1' pc1'
    | (false, opcode1', vch1', pc1') => (vSolutions ++ [vch1], opcode1', vch1', pc1')
  else (vSolutions, opcode1, vch1, pc1)
termination_by pc1.length

/-- One instruction of the script against one of the template: the solutions it adds,
or `none` where the scan of this template stops. -/
def matchOp (is_xmss_pubkey : List UInt8 → Bool) (opcode1 : opcodetype) (vch1 : valtype)
    (opcode2 : opcodetype) (vch2 : valtype) : Option (List valtype) :=
  if opcode2 = OP_PUBKEY then
    if check_pubkey is_xmss_pubkey vch1 then some [vch1] else none
  else if opcode2 = OP_PUBKEYHASH then
    if vch1.length = 20 then some [vch1] else none
  else if opcode2 = OP_SMALLINTEGER then
    -- the small integer is pushed as the one byte `DecodeOP_N`
    if opcode1 = OP_0 ∨ (opcode1 ≥ OP_1 ∧ opcode1 ≤ OP_16) then
      some [[UInt8.ofNat (DecodeOP_N opcode1)]]
    else none
  else if opcode1 ≠ opcode2 ∨ vch1 ≠ vch2 then none
  else some []

/-- The comparison loop of the template scan from the iterators `pc1` into the script
and `pc2` into the template: the solutions when both reach their end together, `none`
at the first mismatch. -/
def templateLoop (is_xmss_pubkey : List UInt8 → Bool) (pc1 pc2 : List UInt8)
    (vSolutions : List valtype) : Option (List valtype) :=
  if pc1 = [] ∧ pc2 = [] then some vSolutions else
  match GetOp2 pc1 with
  | (false, _, _, _) => none
  | (true, opcode1, vch1, pc1') =>
    match hop2 : GetOp2 pc2 with
    | (false, _, _, _) => none
    | (true, opcode2, vch2, pc2') =>
      have h2 : pc2'.length < pc2.length := by
        have h := GetOp2_length_lt (ne_nil_of_GetOp2 (by rw [hop2]))
        rw [hop2] at h
        exact h
      if opcode2 = OP_PUBKEYS then
        -- the keys are taken, then the template moves on and the comparison falls through
        match pubkeysLoop is_xmss_pubkey vSolutions opcode1 vch1 pc1' with
        | (vSolutions', opcode1', vch1', pc1'') =>
          match hop3 : GetOp2 pc2' with
          | (false, _, _, _) => none
          | (true, opcode2', vch2', pc2'') =>
            have : pc2''.length < pc2.length := by
              have h := GetOp2_length_lt (ne_nil_of_GetOp2 (by rw [hop3]))
              rw [hop3] at h
              exact Nat.lt_trans h h2
            (matchOp is_xmss_pubkey opcode1' vch1' opcode2' vch2').bind fun sols =>
              templateLoop is_xmss_pubkey pc1'' pc2'' (vSolutions' ++ sols)
      else
        (matchOp is_xmss_pubkey opcode1 vch1 opcode2 vch2).bind fun sols =>
          templateLoop is_xmss_pubkey pc1' pc2' (vSolutions ++ sols)
termination_by pc2.length

/-- The template scan of `Solver`: the first template that matches, where a multisig
match must also pass the check of `m` and `n` or `Solver` fails at once. -/
def scanTemplates (is_xmss_pubkey : List UInt8 → Bool) (script1 : CScript) :
    List (txnouttype × CScript) → Option (txnouttype × List valtype)
  | [] => none
  | (typeRet, script2) :: rest =>
    match templateLoop is_xmss_pubkey script1 script2 [] with
    | none => scanTemplates is_xmss_pubkey script1 rest
    | some vSolutions =>
      if typeRet = .TX_MULTISIG then
        -- the multisig templates push the small integers `m` first and `n` last
        let m := (vSolutions.headD []).headD 0
        let n := (vSolutions.getLastD []).headD 0
        if m < 1 ∨ n < 1 ∨ m > n ∨ vSolutions.length - 2 ≠ n.toNat then none
        else some (typeRet, vSolutions)
      else some (typeRet, vSolutions)

/-- The witness branch of `Solver`: the type of a witness program by version and size. -/
def witnessSolution (witnessversion : Nat) (witnessprogram : List UInt8) :
    Option (txnouttype × List valtype) :=
  if witnessversion = 0 ∧ witnessprogram.length = 20 then
    some (.TX_WITNESS_V0_KEYHASH, [witnessprogram])
  else if witnessversion = 0 ∧ witnessprogram.length = 32 then
    some (.TX_WITNESS_V0_SCRIPTHASH, [witnessprogram])
  else if witnessversion = 1 ∧ witnessprogram.length = 32 then
    some (.TX_WITNESS_V1_SCRIPTHASH, [witnessprogram])
  else if witnessversion ≠ 0 then
    some (.TX_WITNESS_UNKNOWN, [[UInt8.ofNat witnessversion], witnessprogram])
  else none

/-- `Solver`: the type of the script and its solutions, `none` where it returns false. -/
def Solver (is_xmss_pubkey : List UInt8 → Bool) (scriptPubKey : CScript) :
    Option (txnouttype × List valtype) :=
  if IsPayToScriptHash scriptPubKey then
    some (.TX_SCRIPTHASH, [(scriptPubKey.drop 2).take 20])
  else match IsWitnessProgram scriptPubKey with
  | some (witnessversion, witnessprogram) => witnessSolution witnessversion witnessprogram
  | none =>
    if scriptPubKey.length ≥ 1 ∧ scriptPubKey[0]? = some OP_RETURN ∧
        IsPushOnly (scriptPubKey.drop 1) then
      some (.TX_NULL_DATA, [])
    else scanTemplates is_xmss_pubkey scriptPubKey mTemplates

/-- The destination `ExtractDestination` reads off a type and its solutions. -/
def destinationOf (H : ScriptHashes) (whichType : txnouttype) (vSolutions : List valtype) :
    Option CTxDestination :=
  match whichType with
  | .TX_PUBKEY =>
    let pubKey := CPubKey.Set H.is_xmss_pubkey (vSolutions.headD [])
    if !pubKey.IsValid then none else some (.CKeyID (pubKey.GetID H))
  | .TX_PUBKEYHASH => (UInt160.ofBytes (vSolutions.headD [])).map .CKeyID
  | .TX_SCRIPTHASH => (UInt160.ofBytes (vSolutions.headD [])).map .CScriptID
  | .TX_WITNESS_V0_KEYHASH => (UInt160.ofBytes (vSolutions.headD [])).map .WitnessV0KeyHash
  | .TX_WITNESS_V0_SCRIPTHASH => (UInt256.ofBytes (vSolutions.headD [])).map .WitnessV0ScriptHash
  | .TX_WITNESS_V1_SCRIPTHASH => (UInt256.ofBytes (vSolutions.headD [])).map .WitnessV1ScriptHash
  | .TX_WITNESS_UNKNOWN =>
    let program := vSolutions.getD 1 []
    if h : program.length ≤ 40 then
      some (.WitnessUnknown ⟨((vSolutions.headD []).headD 0).toUInt32, program, h⟩)
    else none
  | _ => none

/-- `ExtractDestination`. -/
def ExtractDestination (H : ScriptHashes) (scriptPubKey : CScript) : Option CTxDestination :=
  (Solver H.is_xmss_pubkey scriptPubKey).bind fun (whichType, vSolutions) =>
    destinationOf H whichType vSolutions

/-- `GetScriptForDestination`, `none` where `EncodeOP_N` fails its assertion. -/
def GetScriptForDestination : CTxDestination → Option CScript
  | .CNoDestination => some []
  | .CKeyID id => some ([OP_DUP, OP_HASH160] ++ pushData id.data ++ [OP_EQUALVERIFY, OP_CHECKSIG])
  | .CScriptID id => some ([OP_HASH160] ++ pushData id.data ++ [OP_EQUAL])
  | .WitnessV0KeyHash id => some (OP_0 :: pushData id.data)
  | .WitnessV0ScriptHash id => some (OP_0 :: pushData id.data)
  | .WitnessV1ScriptHash id => some (OP_1 :: pushData id.data)
  | .WitnessUnknown id => (EncodeOP_N id.version.toNat).map fun op => op :: pushData id.program

/-! ## Reading the scripts of destinations back -/

section ReadBack

variable (is_xmss_pubkey : List UInt8 → Bool)

/-- An opcode above the push opcodes is read alone. -/
theorem GetOp2_of_gt (op : opcodetype) (h : OP_PUSHDATA4 < op) (pc : List UInt8) :
    GetOp2 (op :: pc) = (true, op, [], pc) := by
  simp only [GetOp2, if_neg (UInt8.not_le.mpr h)]

/-- A push of fewer than 76 bytes is its length byte and the bytes. -/
theorem pushData_of_lt {b : List UInt8} (hb : b.length < OP_PUSHDATA1.toNat) :
    pushData b = UInt8.ofNat b.length :: b := by
  simp only [pushData, if_pos hb, List.singleton_append]

/-- A short push is read back as its bytes. -/
theorem GetOp2_pushData {b : List UInt8} (hb : b.length < OP_PUSHDATA1.toNat) (rest : List UInt8) :
    GetOp2 (pushData b ++ rest) = (true, UInt8.ofNat b.length, b, rest) := by
  have hb' : b.length < 76 := hb
  have hsize : (UInt8.ofNat b.length).toNat = b.length := UInt8.toNat_ofNat_of_lt' (by show b.length < 256; omega)
  have hlt : UInt8.ofNat b.length < OP_PUSHDATA1 := by
    rw [UInt8.lt_iff_toNat_lt, hsize]
    exact hb
  have hle : UInt8.ofNat b.length ≤ OP_PUSHDATA4 := by
    rw [UInt8.le_iff_toNat_le, hsize]
    show b.length ≤ 78
    omega
  rw [pushData_of_lt hb, List.cons_append]
  simp only [GetOp2, if_pos hle, pushSize, if_pos hlt, hsize, List.length_append]
  rw [if_neg (by omega), List.take_left, List.drop_left]

theorem templateLoop_nil (vSolutions : List valtype) :
    templateLoop is_xmss_pubkey [] [] vSolutions = some vSolutions := by
  rw [templateLoop, if_pos ⟨rfl, rfl⟩]

/-- One step of the template scan on an instruction of the template other than
`OP_PUBKEYS`. -/
theorem templateLoop_of_GetOp2 {pc1 pc2 pc1' pc2' : List UInt8} {opcode1 opcode2 : opcodetype}
    {vch1 vch2 : valtype} (h1 : GetOp2 pc1 = (true, opcode1, vch1, pc1'))
    (h2 : GetOp2 pc2 = (true, opcode2, vch2, pc2')) (hpk : opcode2 ≠ OP_PUBKEYS)
    (vSolutions : List valtype) :
    templateLoop is_xmss_pubkey pc1 pc2 vSolutions =
      (matchOp is_xmss_pubkey opcode1 vch1 opcode2 vch2).bind fun sols =>
        templateLoop is_xmss_pubkey pc1' pc2' (vSolutions ++ sols) := by
  have hne : ¬(pc1 = [] ∧ pc2 = []) := fun h => ne_nil_of_GetOp2 (by rw [h1]) h.1
  rw [templateLoop, if_neg hne]
  simp only [h1]
  split
  next heq =>
    rw [h2] at heq
    cases heq
  next heq =>
    rw [h2] at heq
    cases heq
    rw [if_neg hpk]


/-- Against a plain opcode of the template, an instruction that is the same opcode with
the same data matches and adds nothing. -/
theorem matchOp_plain_self {op : opcodetype} (hpk : op ≠ OP_PUBKEY) (hpkh : op ≠ OP_PUBKEYHASH)
    (hsmall : op ≠ OP_SMALLINTEGER) (vch : valtype) :
    matchOp is_xmss_pubkey op vch op vch = some [] := by
  rw [matchOp, if_neg hpk, if_neg hpkh, if_neg hsmall, if_neg (by simp)]

/-- `OP_PUBKEYHASH` takes the data of a 20-byte push. -/
theorem matchOp_PUBKEYHASH {vch1 : valtype} (hlen : vch1.length = 20) (opcode1 : opcodetype)
    (vch2 : valtype) :
    matchOp is_xmss_pubkey opcode1 vch1 OP_PUBKEYHASH vch2 = some [vch1] := by
  rw [matchOp, if_neg (by decide), if_pos rfl, if_pos hlen]

/-- `OP_PUBKEY` refuses an instruction without data. -/
theorem matchOp_PUBKEY_nil (opcode1 : opcodetype) (vch2 : valtype) :
    matchOp is_xmss_pubkey opcode1 [] OP_PUBKEY vch2 = none := by
  rw [matchOp, if_pos rfl]
  rfl

/-- `OP_PUBKEY` takes the data of a push that `check_pubkey` accepts. -/
theorem matchOp_PUBKEY {vch1 : valtype} (hcheck : check_pubkey is_xmss_pubkey vch1 = true)
    (opcode1 : opcodetype) (vch2 : valtype) :
    matchOp is_xmss_pubkey opcode1 vch1 OP_PUBKEY vch2 = some [vch1] := by
  rw [matchOp, if_pos rfl, if_pos hcheck]

/-- An opcode of a template that stands for itself. -/
def IsPlainTemplateOp (op : opcodetype) : Bool :=
  OP_PUSHDATA4 < op && op != OP_PUBKEYS && op != OP_PUBKEY && op != OP_PUBKEYHASH &&
    op != OP_SMALLINTEGER

/-- A plain opcode of the template is matched by the same opcode in the script. -/
theorem templateLoop_plain_cons {op : opcodetype} (hop : IsPlainTemplateOp op = true)
    (pc1 pc2 : List UInt8) (vSolutions : List valtype) :
    templateLoop is_xmss_pubkey (op :: pc1) (op :: pc2) vSolutions =
      templateLoop is_xmss_pubkey pc1 pc2 vSolutions := by
  simp only [IsPlainTemplateOp, Bool.and_eq_true, decide_eq_true_eq, bne_iff_ne, ne_eq] at hop
  obtain ⟨⟨⟨⟨hpush, hpks⟩, hpk⟩, hpkh⟩, hsmall⟩ := hop
  rw [templateLoop_of_GetOp2 _ (GetOp2_of_gt op hpush pc1) (GetOp2_of_gt op hpush pc2) hpks,
    matchOp_plain_self _ hpk hpkh hsmall, Option.bind_some, List.append_nil]

/-- An `OP_PUBKEY` of the template stops the scan at an opcode without data. -/
theorem templateLoop_PUBKEY_of_gt (op : opcodetype) (hop : OP_PUSHDATA4 < op)
    (pc1 pc2 : List UInt8) (vSolutions : List valtype) :
    templateLoop is_xmss_pubkey (op :: pc1) (OP_PUBKEY :: pc2) vSolutions = none := by
  rw [templateLoop_of_GetOp2 _ (GetOp2_of_gt op hop pc1) (GetOp2_of_gt OP_PUBKEY (by decide) pc2)
    (by decide), matchOp_PUBKEY_nil, Option.bind_none]

/-- A script led by an opcode that is no version opcode is no witness program. -/
theorem IsWitnessProgram_of_not_version {op : opcodetype} (hop : op ≠ OP_0 ∧ (op < OP_1 ∨ op > OP_16))
    (rest : List UInt8) : IsWitnessProgram (op :: rest) = none := by
  cases rest with
  | nil => rfl
  | cons len program =>
    -- the version test fails whatever the length is
    rw [IsWitnessProgram]
    split_ifs <;> rfl

/-- A script led by an opcode that is no version opcode, `OP_HASH160` or `OP_RETURN` is
classified by the template scan alone. -/
theorem Solver_of_templates {op : opcodetype} (hop : op ≠ OP_0 ∧ (op < OP_1 ∨ op > OP_16))
    (hhash : op ≠ OP_HASH160) (hret : op ≠ OP_RETURN) (rest : List UInt8) :
    Solver is_xmss_pubkey (op :: rest) = scanTemplates is_xmss_pubkey (op :: rest) mTemplates := by
  have hp2sh : IsPayToScriptHash (op :: rest) = false := by
    simp [IsPayToScriptHash, hhash]
  have hdata : ¬((op :: rest).length ≥ 1 ∧ (op :: rest)[0]? = some OP_RETURN ∧
      IsPushOnly ((op :: rest).drop 1) = true) := by
    simp [hret]
  rw [Solver, hp2sh, if_neg Bool.false_ne_true, IsWitnessProgram_of_not_version hop]
  exact if_neg hdata

/-- The pay-to-pubkey-hash script of a key id matches its template and no earlier one. -/
theorem Solver_keyID (id : UInt160) :
    Solver is_xmss_pubkey ([OP_DUP, OP_HASH160] ++ pushData id.data ++ [OP_EQUALVERIFY, OP_CHECKSIG]) =
      some (.TX_PUBKEYHASH, [id.data]) := by
  have hlen : id.data.length < OP_PUSHDATA1.toNat := by
    rw [id.size_eq]
    decide
  have hscript : [OP_DUP, OP_HASH160] ++ pushData id.data ++ [OP_EQUALVERIFY, OP_CHECKSIG] =
      OP_DUP :: OP_HASH160 :: (pushData id.data ++ [OP_EQUALVERIFY, OP_CHECKSIG]) := by
    simp
  rw [hscript, Solver_of_templates _ ⟨by decide, Or.inr (by decide)⟩ (by decide) (by decide)]
  simp only [scanTemplates, mTemplates]
  -- both pay-to-pubkey templates stop at once: `OP_DUP` pushes no key
  rw [templateLoop_PUBKEY_of_gt _ OP_DUP (by decide), templateLoop_PUBKEY_of_gt _ OP_DUP (by decide)]
  -- the pay-to-pubkey-hash template matches instruction by instruction
  rw [templateLoop_plain_cons _ (by decide), templateLoop_plain_cons _ (by decide),
    templateLoop_of_GetOp2 _ (GetOp2_pushData hlen _) (GetOp2_of_gt OP_PUBKEYHASH (by decide) _)
      (by decide),
    matchOp_PUBKEYHASH _ id.size_eq, Option.bind_some,
    templateLoop_plain_cons _ (by decide), templateLoop_plain_cons _ (by decide), templateLoop_nil]
  simp


/-- The pay-to-pubkey script of a key that `check_pubkey` accepts matches the first
template. -/
theorem Solver_rawPubKey {vch : List UInt8} (hcheck : check_pubkey is_xmss_pubkey vch = true)
    (hlo : 1 ≤ vch.length) (hhi : vch.length < OP_PUSHDATA1.toNat) :
    Solver is_xmss_pubkey (pushData vch ++ [OP_CHECKSIG]) = some (.TX_PUBKEY, [vch]) := by
  have hhi' : vch.length < 76 := hhi
  have hsize : (UInt8.ofNat vch.length).toNat = vch.length :=
    UInt8.toNat_ofNat_of_lt' (by show vch.length < 256; omega)
  -- the length byte leads the script: no version opcode, no `OP_HASH160`, no `OP_RETURN`
  have hne : ∀ b : UInt8, (b.toNat < 1 ∨ 76 ≤ b.toNat) → UInt8.ofNat vch.length ≠ b := by
    intro b hb h
    rw [← h, hsize] at hb
    omega
  have hver : UInt8.ofNat vch.length ≠ OP_0 ∧
      (UInt8.ofNat vch.length < OP_1 ∨ UInt8.ofNat vch.length > OP_16) := by
    refine ⟨hne OP_0 (Or.inl (by decide)), Or.inl ?_⟩
    rw [UInt8.lt_iff_toNat_lt, hsize]
    show vch.length < 81
    omega
  rw [pushData_of_lt hhi, List.cons_append,
    Solver_of_templates _ hver (hne OP_HASH160 (Or.inr (by decide))) (hne OP_RETURN (Or.inr (by decide)))]
  simp only [scanTemplates, mTemplates]
  rw [← List.cons_append, ← pushData_of_lt hhi,
    templateLoop_of_GetOp2 _ (GetOp2_pushData hhi _) (GetOp2_of_gt OP_PUBKEY (by decide) _) (by decide),
    matchOp_PUBKEY _ hcheck, Option.bind_some, templateLoop_plain_cons _ (by decide), templateLoop_nil]
  simp

/-- The pay-to-script-hash script of a script id takes the shortcut. -/
theorem Solver_scriptID (id : UInt160) :
    Solver is_xmss_pubkey ([OP_HASH160] ++ pushData id.data ++ [OP_EQUAL]) =
      some (.TX_SCRIPTHASH, [id.data]) := by
  have hlen : id.data.length < OP_PUSHDATA1.toNat := by
    rw [id.size_eq]
    decide
  have hscript : [OP_HASH160] ++ pushData id.data ++ [OP_EQUAL] =
      OP_HASH160 :: 20 :: (id.data ++ [OP_EQUAL]) := by
    rw [pushData_of_lt hlen, id.size_eq]
    rfl
  have hp2sh : IsPayToScriptHash (OP_HASH160 :: 20 :: (id.data ++ [OP_EQUAL])) = true := by
    simp [IsPayToScriptHash, id.size_eq]
  rw [hscript, Solver, if_pos hp2sh]
  simp [List.take_left' id.size_eq]

/-- A version opcode and a push of 2 to 40 bytes make a witness program. -/
theorem Solver_witnessScript {op : opcodetype} (hop : op = OP_0 ∨ (OP_1 ≤ op ∧ op ≤ OP_16))
    {program : List UInt8} (hlo : 2 ≤ program.length) (hhi : program.length ≤ 40) :
    Solver is_xmss_pubkey (op :: pushData program) = witnessSolution (DecodeOP_N op) program := by
  have hlen : program.length < OP_PUSHDATA1.toNat := by
    show program.length < 76
    omega
  have hsize : (UInt8.ofNat program.length).toNat = program.length :=
    UInt8.toNat_ofNat_of_lt' (by show program.length < 256; omega)
  have hhash : op ≠ OP_HASH160 := by
    rintro rfl
    rcases hop with h | ⟨-, h16⟩
    · exact absurd h (by decide)
    · exact absurd h16 (by decide)
  -- the version test passes: `OP_0`, or an opcode from `OP_1` to `OP_16`
  have hver : ¬(op ≠ OP_0 ∧ (op < OP_1 ∨ op > OP_16)) := by
    rintro ⟨h0, hlt | hgt⟩
    · rcases hop with h | ⟨h1, -⟩
      · exact h0 h
      · exact absurd h1 (UInt8.not_le.mpr hlt)
    · rcases hop with h | ⟨-, h16⟩
      · exact h0 h
      · exact absurd h16 (UInt8.not_le.mpr hgt)
  have hp2sh : IsPayToScriptHash (op :: pushData program) = false := by
    simp [IsPayToScriptHash, hhash]
  have hwit : IsWitnessProgram (op :: pushData program) = some (DecodeOP_N op, program) := by
    rw [pushData_of_lt hlen, IsWitnessProgram, if_neg (by simp only [List.length_cons]; omega),
      if_neg hver, if_pos (by simp only [hsize, List.length_cons])]
  rw [Solver, hp2sh, if_neg Bool.false_ne_true, hwit]

/-- The version 0 program of a 32-byte hash is a version 0 script hash. -/
theorem Solver_witnessV0ScriptHash (hash : UInt256) :
    Solver is_xmss_pubkey (OP_0 :: pushData hash.data) =
      some (.TX_WITNESS_V0_SCRIPTHASH, [hash.data]) := by
  have hlen := hash.size_eq
  rw [Solver_witnessScript _ (Or.inl rfl) (by omega) (by omega), witnessSolution,
    if_neg (by rw [hlen]; decide), if_pos ⟨rfl, hlen⟩]

/-- `EncodeOP_N` of a number from 1 to 16 is an opcode from `OP_1` to `OP_16` that
`DecodeOP_N` reads back. -/
theorem EncodeOP_N_spec {n : Nat} (h1 : 1 ≤ n) (h16 : n ≤ 16) :
    ∃ op, EncodeOP_N n = some op ∧ OP_1 ≤ op ∧ op ≤ OP_16 ∧ DecodeOP_N op = n := by
  have hsize : (UInt8.ofNat (OP_1.toNat + n - 1)).toNat = 80 + n := by
    rw [UInt8.toNat_ofNat_of_lt' (by show 81 + n - 1 < 256; omega)]
    show 81 + n - 1 = 80 + n
    omega
  refine ⟨UInt8.ofNat (OP_1.toNat + n - 1), ?_, ?_, ?_, ?_⟩
  · rw [EncodeOP_N, if_pos h16, if_neg (by omega)]
  · rw [UInt8.le_iff_toNat_le, hsize]
    show 81 ≤ 80 + n
    omega
  · rw [UInt8.le_iff_toNat_le, hsize]
    show 80 + n ≤ 96
    omega
  · have h0 : UInt8.ofNat (OP_1.toNat + n - 1) ≠ OP_0 := by
      intro h
      have h' := congrArg UInt8.toNat h
      rw [hsize] at h'
      exact absurd h' (by show 80 + n ≠ 0; omega)
    rw [DecodeOP_N, if_neg h0, hsize]
    show 80 + n - (81 - 1) = n
    omega

/-- A version of at most 16 survives the byte it is read back from. -/
theorem toUInt32_ofNat_toNat {v : UInt32} (h : v.toNat ≤ 16) : (UInt8.ofNat v.toNat).toUInt32 = v := by
  apply UInt32.toNat_inj.mp
  rw [UInt8.toNat_toUInt32, UInt8.toNat_ofNat_of_lt' (by show v.toNat < 256; omega)]

end ReadBack

/-- The unknown witness of version 1 with a 32-byte program is read back as the
version 1 script hash of its program. -/
theorem ExtractDestination_unknownWitness_v1 (H : ScriptHashes) {program : List UInt8}
    (h : program.length = 32) :
    (GetScriptForDestination (.WitnessUnknown ⟨1, program, by omega⟩)).bind (ExtractDestination H) =
      some (.WitnessV1ScriptHash ⟨program, h⟩) := by
  have henc : EncodeOP_N 1 = some OP_1 := rfl
  have hdec : DecodeOP_N OP_1 = 1 := by decide
  rw [GetScriptForDestination, show (1 : UInt32).toNat = 1 from rfl, henc, Option.map_some,
    Option.bind_some, ExtractDestination,
    Solver_witnessScript _ (Or.inr ⟨by decide, by decide⟩) (by show 2 ≤ program.length; omega)
      (by show program.length ≤ 40; omega), hdec]
  simp [witnessSolution, destinationOf, h, UInt256.ofBytes]

/-- Every other unknown witness from version 1 to 16 is read back as itself. -/
theorem ExtractDestination_unknownWitness (H : ScriptHashes) (w : WitnessUnknown)
    (h1 : 1 ≤ w.version.toNat) (h16 : w.version.toNat ≤ 16) (h2 : 2 ≤ w.length)
    (hv : ¬(w.version = 1 ∧ w.length = 32)) :
    (GetScriptForDestination (.WitnessUnknown w)).bind (ExtractDestination H) =
      some (.WitnessUnknown w) := by
  obtain ⟨op, henc, hop1, hop16, hdec⟩ := EncodeOP_N_spec h1 h16
  have hv0 : w.version.toNat ≠ 0 := by omega
  have hv' : ¬(w.version.toNat = 1 ∧ w.program.length = 32) := by
    rintro ⟨hv1, hlen⟩
    exact hv ⟨UInt32.toNat_inj.mp hv1, hlen⟩
  rw [GetScriptForDestination, henc, Option.map_some, Option.bind_some, ExtractDestination,
    Solver_witnessScript _ (Or.inr ⟨hop1, hop16⟩) h2 w.length_le, hdec, witnessSolution,
    if_neg (fun h => hv0 h.1), if_neg (fun h => hv0 h.1), if_neg hv', if_pos hv0, Option.bind_some]
  simp only [destinationOf, List.getD_cons_succ, List.getD_cons_zero, List.headD_cons]
  rw [dif_pos w.length_le, toUInt32_ofNat_toNat h16]

/-- Every destination but `CNoDestination` is read back from the script built for it,
except the unknown witness of version 1 with a 32-byte program, which is read back as
the version 1 script hash of the same bytes. -/
theorem ExtractDestination_GetScriptForDestination (H : ScriptHashes) :
    (∀ d : CTxDestination, d ≠ .CNoDestination → (∀ w, d ≠ .WitnessUnknown w) →
      (GetScriptForDestination d).bind (ExtractDestination H) = some d) ∧
    (∀ w : WitnessUnknown, 1 ≤ w.version.toNat → w.version.toNat ≤ 16 → 2 ≤ w.length →
      (GetScriptForDestination (.WitnessUnknown w)).bind (ExtractDestination H) =
        if h : w.version = 1 ∧ w.length = 32 then some (.WitnessV1ScriptHash ⟨w.program, h.2⟩)
        else some (.WitnessUnknown w)) := by
  constructor
  · intro d hno hunk
    cases d with
    | CNoDestination => exact absurd rfl hno
    | CKeyID id =>
      rw [GetScriptForDestination, Option.bind_some, ExtractDestination, Solver_keyID]
      simp [destinationOf]
    | CScriptID id =>
      rw [GetScriptForDestination, Option.bind_some, ExtractDestination, Solver_scriptID]
      simp [destinationOf]
    | WitnessV0KeyHash id =>
      rw [GetScriptForDestination, Option.bind_some, ExtractDestination,
        Solver_witnessScript _ (Or.inl rfl) (by simp [id.size_eq]) (by simp [id.size_eq])]
      simp [witnessSolution, destinationOf, id.size_eq, DecodeOP_N]
    | WitnessV0ScriptHash id =>
      rw [GetScriptForDestination, Option.bind_some, ExtractDestination,
        Solver_witnessScript _ (Or.inl rfl) (by simp [id.size_eq]) (by simp [id.size_eq])]
      simp [witnessSolution, destinationOf, id.size_eq, DecodeOP_N]
    | WitnessV1ScriptHash id =>
      rw [GetScriptForDestination, Option.bind_some, ExtractDestination,
        Solver_witnessScript _ (Or.inr ⟨by decide, by decide⟩) (by simp [id.size_eq])
          (by simp [id.size_eq])]
      have hdec : DecodeOP_N OP_1 = 1 := by decide
      simp [witnessSolution, destinationOf, id.size_eq, hdec]
    | WitnessUnknown w => exact absurd rfl (hunk w)
  · intro w h1 h16 h2
    by_cases hv : w.version = 1 ∧ w.length = 32
    · -- version 1 with 32 bytes is taken by the fork's own type
      rw [dif_pos hv]
      obtain ⟨version, program, hle⟩ := w
      have hv1 : version = 1 := hv.1
      subst hv1
      exact ExtractDestination_unknownWitness_v1 H hv.2
    · rw [dif_neg hv]
      exact ExtractDestination_unknownWitness H w h1 h16 h2 hv

/-- Hashes that are all zero, and an XMSS test that accepts nothing. -/
def zeroHashes : ScriptHashes where
  is_xmss_pubkey := fun _ => false
  RIPEMD160 := fun _ => ⟨List.replicate 20 0, rfl⟩
  SHA256 := fun _ => UInt256.zero
  hash256_shake128 := fun _ => UInt256.zero

/-- The unknown witness of version 1 with 32 zero bytes is read back as a script hash. -/
theorem unknownWitness_v1_readBack_scriptHash :
    (GetScriptForDestination (.WitnessUnknown ⟨1, List.replicate 32 0, by decide⟩)).bind
        (ExtractDestination zeroHashes) =
      some (.WitnessV1ScriptHash ⟨List.replicate 32 0, rfl⟩) ∧
    (GetScriptForDestination (.WitnessUnknown ⟨1, List.replicate 32 0, by decide⟩)).bind
        (ExtractDestination zeroHashes) ≠
      some (.WitnessUnknown ⟨1, List.replicate 32 0, by decide⟩) := by
  have hlen : (List.replicate 32 (0 : UInt8)).length = 32 := List.length_replicate
  have hread := ExtractDestination_unknownWitness_v1 zeroHashes hlen
  refine ⟨hread, ?_⟩
  rw [hread]
  simp

theorem ExtractDestination_GetScriptForDestination_keyID :
    (GetScriptForDestination (.CKeyID ⟨List.replicate 20 7, rfl⟩)).bind (ExtractDestination zeroHashes) =
        some (.CKeyID ⟨List.replicate 20 7, rfl⟩) ∧
      (GetScriptForDestination (.WitnessUnknown ⟨2, List.replicate 20 5, by decide⟩)).bind
          (ExtractDestination zeroHashes) =
        some (.WitnessUnknown ⟨2, List.replicate 20 5, by decide⟩) := by
  refine ⟨(ExtractDestination_GetScriptForDestination zeroHashes).1 _ (by decide) fun _ h => (by cases h), ?_⟩
  rw [(ExtractDestination_GetScriptForDestination zeroHashes).2 ⟨2, List.replicate 20 5, by decide⟩
    (by decide) (by decide) (by decide), dif_neg (by decide)]

end BitcoinPQ

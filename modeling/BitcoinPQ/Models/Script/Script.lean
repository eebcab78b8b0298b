import BitcoinPQ.Models.Primitives.Transaction

/-!
# Scripts and their instructions

`script/script.h`: opcodes, `CScript::GetOp2` and the scans built on it. A script
iterator is modelled by the unread rest of the script, so `it - itBegin` is a
difference of lengths. `GetOp2` can fail in the middle of an instruction; the
iterator then stops after the opcode byte and, when present, the length field, and
callers that keep using the iterator see exactly that position.
-/

namespace BitcoinPQ

open Wire

/-- `opcodetype`: every byte is an opcode value. -/
abbrev opcodetype := UInt8

/-- A stack element. -/
abbrev valtype := List UInt8

def OP_0 : opcodetype := 0x00
def OP_PUSHDATA1 : opcodetype := 0x4c
def OP_PUSHDATA2 : opcodetype := 0x4d
def OP_PUSHDATA4 : opcodetype := 0x4e
def OP_1NEGATE : opcodetype := 0x4f
def OP_RESERVED : opcodetype := 0x50
def OP_1 : opcodetype := 0x51
def OP_16 : opcodetype := 0x60
def OP_NOP : opcodetype := 0x61
def OP_IF : opcodetype := 0x63
def OP_NOTIF : opcodetype := 0x64
def OP_ELSE : opcodetype := 0x67
def OP_ENDIF : opcodetype := 0x68
def OP_RETURN : opcodetype := 0x6a
def OP_DUP : opcodetype := 0x76
def OP_EQUAL : opcodetype := 0x87
def OP_EQUALVERIFY : opcodetype := 0x88
def OP_HASH160 : opcodetype := 0xa9
def OP_CODESEPARATOR : opcodetype := 0xab
def OP_CHECKSIG : opcodetype := 0xac
def OP_CHECKSIGVERIFY : opcodetype := 0xad
def OP_CHECKMULTISIG : opcodetype := 0xae
def OP_CHECKMULTISIGVERIFY : opcodetype := 0xaf
def OP_INVALIDOPCODE : opcodetype := 0xff

/-- `MAX_SCRIPT_SIZE` of this fork. -/
def MAX_SCRIPT_SIZE : Nat := 20000
/-- `MAX_SCRIPT_ELEMENT_SIZE` of this fork (520 upstream). -/
def MAX_SCRIPT_ELEMENT_SIZE : Nat := 16000
def MAX_OPS_PER_SCRIPT : Nat := 201
def MAX_PUBKEYS_PER_MULTISIG : Nat := 20
def MAX_STACK_SIZE : Nat := 1000
/-- The length field of a push opcode at `pc`, and the iterator after it; `none`
where `GetOp2` finds the field cut off. -/
def pushSize (opcode : opcodetype) (pc : List UInt8) : Option (Nat × List UInt8) :=
  if opcode < OP_PUSHDATA1 then some (opcode.toNat, pc)
  else if opcode = OP_PUSHDATA1 then
    if pc.length < 1 then none else some (leValue (pc.take 1), pc.drop 1)
  else if opcode = OP_PUSHDATA2 then
    if pc.length < 2 then none else some (leValue (pc.take 2), pc.drop 2)
  else if pc.length < 4 then none else some (leValue (pc.take 4), pc.drop 4)

/-- `CScript::GetOp2` at `pc`: whether an instruction was read, the opcode
(`OP_INVALIDOPCODE` when not), its push data (cleared first), and the iterator. -/
def GetOp2 : List UInt8 → Bool × opcodetype × valtype × List UInt8
  | [] => (false, OP_INVALIDOPCODE, [], [])
  | opcode :: pc =>
    if opcode ≤ OP_PUSHDATA4 then
      match pushSize opcode pc with
      | none => (false, OP_INVALIDOPCODE, [], pc)
      | some (nSize, pc) =>
        if pc.length < nSize then (false, OP_INVALIDOPCODE, [], pc)
        else (true, opcode, pc.take nSize, pc.drop nSize)
    else (true, opcode, [], pc)

theorem pushSize_length {opcode : opcodetype} {pc rest : List UInt8} {n : Nat}
    (h : pushSize opcode pc = some (n, rest)) : rest.length ≤ pc.length := by
  unfold pushSize at h
  split_ifs at h <;> (cases h; simp)

/-- `GetOp2` always consumes at least the opcode byte of a non-empty script. -/
theorem GetOp2_length_lt {pc : List UInt8} (h : pc ≠ []) :
    (GetOp2 pc).2.2.2.length < pc.length := by
  cases pc with
  | nil => contradiction
  | cons opcode pc =>
    simp only [GetOp2]
    split_ifs
    · split
      · simp
      · rename_i nSize rest hps
        have hle := pushSize_length hps
        split_ifs <;> simp <;> omega
    · simp

/-- `GetOp2` reads an instruction only from a non-empty script. -/
theorem ne_nil_of_GetOp2 {pc : List UInt8} (h : (GetOp2 pc).1 = true) : pc ≠ [] := by
  rintro rfl
  simp [GetOp2] at h

/-! ## Script numbers

`CScriptNum` keeps its value in an `int64_t`; the operands it is built from have at
most five bytes and the opcodes add or subtract at most two of them, so no value
comes near the ends of the range and the model keeps the value as an `Int`. A
`scriptnum_error` is `none`.
-/

namespace CScriptNum

/-- The `while (absvalue)` loop of `serialize`: minimal little-endian magnitude. -/
def absBytes (n : Nat) : List UInt8 :=
  if n = 0 then [] else UInt8.ofNat (n % 256) :: absBytes (n / 256)
termination_by n
decreasing_by omega

/-- `CScriptNum::serialize`: magnitude bytes, with the sign in the top bit of the last. -/
def serialize (value : Int) : List UInt8 :=
  if value = 0 then [] else
    let neg := decide (value < 0)
    let result := absBytes value.natAbs
    let last := result.getLast?.getD 0
    if last &&& 0x80 != 0 then result ++ [if neg then 0x80 else 0]
    else if neg then result.dropLast ++ [last ||| 0x80]
    else result

/-- `CScriptNum::set_vch`. -/
def set_vch (vch : List UInt8) : Int :=
  match vch.getLast? with
  | none => 0
  | some last =>
    if last &&& 0x80 != 0 then -(((leValue vch - 0x80 * 256 ^ (vch.length - 1) : Nat)) : Int)
    else (leValue vch : Int)

/-- The minimal-encoding test of the `CScriptNum` constructor. -/
def IsMinimal (vch : List UInt8) : Bool :=
  match vch.reverse with
  | [] => true
  | [last] => last &&& 0x7f != 0
  | last :: prev :: _ => last &&& 0x7f != 0 || prev &&& 0x80 != 0

/-- `CScriptNum(vch, fRequireMinimal, nMaxNumSize)`. -/
def ofVch (vch : List UInt8) (fRequireMinimal : Bool) (nMaxNumSize : Nat) : Option Int :=
  if vch.length > nMaxNumSize then none
  else if fRequireMinimal && !IsMinimal vch then none
  else some (set_vch vch)

/-- `CScriptNum::getint`: the value clamped to `int`. -/
def getint (value : Int) : Int := max (min value 2147483647) (-2147483648)

end CScriptNum

/-- `CastToBool`: any non-zero byte, except a sign bit alone in the last byte. -/
def CastToBool : List UInt8 → Bool
  | [] => false
  | b :: rest => if b != 0 then !(rest = [] ∧ b = 0x80) else CastToBool rest

/-- `CScript() << b`: the push of a byte vector. -/
def pushData (b : List UInt8) : CScript :=
  (if b.length < OP_PUSHDATA1.toNat then [UInt8.ofNat b.length]
    else if b.length ≤ 0xff then [OP_PUSHDATA1, UInt8.ofNat b.length]
    else if b.length ≤ 0xffff then OP_PUSHDATA2 :: leBytes 2 b.length
    else OP_PUSHDATA4 :: leBytes 4 b.length) ++ b

/-- `CScript::DecodeOP_N` on `OP_0` and `OP_1` … `OP_16`. -/
def DecodeOP_N (opcode : opcodetype) : Nat :=
  if opcode = OP_0 then 0 else opcode.toNat - (OP_1.toNat - 1)

/-- `CScript::EncodeOP_N`, `none` where its assertion `0 ≤ n ≤ 16` fails. -/
def EncodeOP_N (n : Nat) : Option opcodetype :=
  if n ≤ 16 then some (if n = 0 then OP_0 else UInt8.ofNat (OP_1.toNat + n - 1)) else none

/-! ## Scans over a script -/

/-- The inner `while` of `CScript::FindAndDelete`: skip every copy of `b` at `pc`. -/
def skipMatches (b pc : List UInt8) (nFound : Nat) : List UInt8 × Nat :=
  if hb : b ≠ [] ∧ b.length ≤ pc.length ∧ pc.take b.length = b then
    have : pc.length - b.length < pc.length := by
      have := List.length_pos_of_ne_nil hb.1
      omega
    skipMatches b (pc.drop b.length) (nFound + 1)
  else (pc, nFound)
termination_by pc.length

theorem length_skipMatches_le (b pc : List UInt8) (nFound : Nat) :
    (skipMatches b pc nFound).1.length ≤ pc.length := by
  induction pc, nFound using skipMatches.induct b with
  | case1 pc nFound hb _ ih =>
    rw [skipMatches, dif_pos hb]
    exact Nat.le_trans ih (by simp)
  | case2 pc nFound hb =>
    exact Nat.le_of_eq (by rw [skipMatches, dif_neg hb])

/-- The loop of `CScript::FindAndDelete`: `pc2` starts the bytes not yet copied to
`result`, and copies of `b` at an instruction boundary are skipped. -/
def findAndDeleteLoop (b : CScript) (pc2 pc result : List UInt8) (nFound : Nat) :
    List UInt8 × List UInt8 × Nat :=
  let result := result ++ pc2.take (pc2.length - pc.length)
  match hskip : skipMatches b pc nFound with
  | (pcs, nFound') =>
    match hop : GetOp2 pcs with
    | (true, _, _, pc') =>
      have : pc'.length < pc.length := by
        have h : pc'.length < pcs.length := by
          have h := GetOp2_length_lt (ne_nil_of_GetOp2 (by rw [hop]))
          rw [hop] at h
          exact h
        have hle := length_skipMatches_le b pc nFound
        rw [hskip] at hle
        exact Nat.lt_of_lt_of_le h hle
      findAndDeleteLoop b pcs pc' result nFound'
    | (false, _, _, _) => (result, pcs, nFound')
termination_by pc.length

/-- `CScript::FindAndDelete`: the script without the copies of `b`, and their number. -/
def FindAndDelete (script b : CScript) : CScript × Nat :=
  if b = [] then (script, 0) else
    let (result, pc2, nFound) := findAndDeleteLoop b script script [] 0
    if nFound > 0 then (result ++ pc2, nFound) else (script, nFound)

/-- What `CScript::GetSigOpCount` counts for `opcode` after `lastOpcode`: a key count
`OP_N` read off the script before `OP_CHECKMULTISIG` when it is accurate, the maximum
otherwise. -/
def sigOpsOf (fAccurate : Bool) (lastOpcode opcode : opcodetype) : Nat :=
  if opcode = OP_CHECKSIG ∨ opcode = OP_CHECKSIGVERIFY then 1
  else if opcode = OP_CHECKMULTISIG ∨ opcode = OP_CHECKMULTISIGVERIFY then
    if fAccurate && OP_1 ≤ lastOpcode && lastOpcode ≤ OP_16 then DecodeOP_N lastOpcode
    else MAX_PUBKEYS_PER_MULTISIG
  else 0

/-- The loop of `CScript::GetSigOpCount`, after the opcode `lastOpcode`. -/
def sigOpCountLoop (fAccurate : Bool) (lastOpcode : opcodetype) (pc : List UInt8) : Nat :=
  if h : pc = [] then 0 else
    match hop : GetOp2 pc with
    | (true, opcode, _, pc') =>
      have : pc'.length < pc.length := by
        have h := GetOp2_length_lt h
        rw [hop] at h
        exact h
      sigOpsOf fAccurate lastOpcode opcode + sigOpCountLoop fAccurate opcode pc'
    | (false, _, _, _) => 0
termination_by pc.length

theorem sigOpCountLoop_nil (fAccurate : Bool) (lastOpcode : opcodetype) :
    sigOpCountLoop fAccurate lastOpcode [] = 0 := by
  rw [sigOpCountLoop, dif_pos rfl]

theorem sigOpCountLoop_of_GetOp2_false {pc : List UInt8} (hpc : pc ≠ [])
    (hop : (GetOp2 pc).1 = false) (fAccurate : Bool) (lastOpcode : opcodetype) :
    sigOpCountLoop fAccurate lastOpcode pc = 0 := by
  rw [sigOpCountLoop, dif_neg hpc]
  split
  next heq =>
    rw [heq] at hop
    cases hop
  next => rfl

theorem sigOpCountLoop_of_GetOp2 {pc pc' : List UInt8} {opcode : opcodetype} {data : valtype}
    (hop : GetOp2 pc = (true, opcode, data, pc')) (fAccurate : Bool) (lastOpcode : opcodetype) :
    sigOpCountLoop fAccurate lastOpcode pc =
      sigOpsOf fAccurate lastOpcode opcode + sigOpCountLoop fAccurate opcode pc' := by
  have hpc : pc ≠ [] := ne_nil_of_GetOp2 (by rw [hop])
  rw [sigOpCountLoop, dif_neg hpc]
  split
  next heq =>
    rw [hop] at heq
    cases heq
    rfl
  next heq =>
    rw [hop] at heq
    cases heq

/-- The accurate count is at most the plain one, instruction by instruction. -/
theorem sigOpsOf_accurate_le (lastOpcode opcode : opcodetype) :
    sigOpsOf true lastOpcode opcode ≤ sigOpsOf false lastOpcode opcode := by
  unfold sigOpsOf
  simp only [Bool.false_and, Bool.false_eq_true, if_false, Bool.true_and]
  split_ifs with _ _ hN
  · exact Nat.le_refl _
  · -- `OP_N` counts at most 16 keys
    simp only [Bool.and_eq_true, decide_eq_true_eq] at hN
    have h16 : lastOpcode.toNat ≤ 0x60 := UInt8.le_iff_toNat_le.mp hN.2
    have h1 : OP_1.toNat = 0x51 := rfl
    unfold DecodeOP_N MAX_PUBKEYS_PER_MULTISIG
    split_ifs
    · exact Nat.zero_le _
    · omega
  · exact Nat.le_refl _
  · exact Nat.le_refl _

theorem sigOpCountLoop_accurate_le (lastOpcode : opcodetype) (pc : List UInt8) :
    sigOpCountLoop true lastOpcode pc ≤ sigOpCountLoop false lastOpcode pc := by
  induction lastOpcode, pc using sigOpCountLoop.induct with
  | case1 lastOpcode =>
    simp only [sigOpCountLoop_nil, Nat.le_refl]
  | case2 lastOpcode pc hpc opcode data pc' hop _ ih =>
    rw [sigOpCountLoop_of_GetOp2 hop, sigOpCountLoop_of_GetOp2 hop]
    exact Nat.add_le_add (sigOpsOf_accurate_le lastOpcode opcode) ih
  | case3 lastOpcode pc hpc _ _ _ hop =>
    have hfail : (GetOp2 pc).1 = false := by rw [hop]
    simp only [sigOpCountLoop_of_GetOp2_false hpc hfail, Nat.le_refl]

/-- `CScript::GetSigOpCount(bool fAccurate)`. -/
def GetSigOpCount (script : CScript) (fAccurate : Bool) : Nat :=
  sigOpCountLoop fAccurate OP_INVALIDOPCODE script

/-- `CScript::IsPayToScriptHash`: `OP_HASH160 <20 bytes> OP_EQUAL`. -/
def IsPayToScriptHash (script : CScript) : Bool :=
  script.length == 23 && script[0]? == some OP_HASH160 && script[1]? == some 0x14 &&
    script[22]? == some OP_EQUAL

/-- `CScript::IsWitnessProgram`: a version opcode and one direct push of 2 to 40 bytes. -/
def IsWitnessProgram (script : CScript) : Option (Nat × List UInt8) :=
  match script with
  | op :: len :: program =>
    if script.length < 4 ∨ script.length > 42 then none
    else if op ≠ OP_0 ∧ (op < OP_1 ∨ op > OP_16) then none
    else if len.toNat + 2 = script.length then some (DecodeOP_N op, program)
    else none
  | _ => none

/-- `CScript::IsPushOnly`: every instruction reads and is at most `OP_16`. -/
def IsPushOnly (pc : List UInt8) : Bool :=
  if h : pc = [] then true else
    match hop : GetOp2 pc with
    | (true, opcode, _, pc') =>
      have : pc'.length < pc.length := by
        have h := GetOp2_length_lt h
        rw [hop] at h
        exact h
      opcode ≤ OP_16 && IsPushOnly pc'
    | (false, _, _, _) => false
termination_by pc.length

theorem IsPushOnly_of_GetOp2_false {pc : List UInt8} (hpc : pc ≠ []) (hop : (GetOp2 pc).1 = false) :
    IsPushOnly pc = false := by
  rw [IsPushOnly, dif_neg hpc]
  split
  next heq =>
    rw [heq] at hop
    cases hop
  next => rfl

theorem IsPushOnly_of_GetOp2 {pc pc' : List UInt8} {opcode : opcodetype} {data : valtype}
    (hop : GetOp2 pc = (true, opcode, data, pc')) :
    IsPushOnly pc = (decide (opcode ≤ OP_16) && IsPushOnly pc') := by
  have hpc : pc ≠ [] := ne_nil_of_GetOp2 (by rw [hop])
  rw [IsPushOnly, dif_neg hpc]
  split
  next heq =>
    rw [hop] at heq
    cases heq
    rfl
  next heq =>
    rw [hop] at heq
    cases heq

/-- The scan of `CScript::GetSigOpCount(scriptSig)`: the data of the last push of a
push-only script, `none` at anything else. -/
def lastPushData (vData : List UInt8) (pc : List UInt8) : Option (List UInt8) :=
  if h : pc = [] then some vData else
    match hop : GetOp2 pc with
    | (true, opcode, data, pc') =>
      have : pc'.length < pc.length := by
        have h := GetOp2_length_lt h
        rw [hop] at h
        exact h
      if opcode > OP_16 then none else lastPushData data pc'
    | (false, _, _, _) => none
termination_by pc.length

theorem lastPushData_nil (vData : List UInt8) : lastPushData vData [] = some vData := by
  rw [lastPushData, dif_pos rfl]

theorem lastPushData_of_GetOp2 {pc pc' : List UInt8} {opcode : opcodetype} {data : valtype}
    (hop : GetOp2 pc = (true, opcode, data, pc')) (vData : List UInt8) :
    lastPushData vData pc = if opcode > OP_16 then none else lastPushData data pc' := by
  have hpc : pc ≠ [] := ne_nil_of_GetOp2 (by rw [hop])
  rw [lastPushData, dif_neg hpc]
  split
  next heq =>
    rw [hop] at heq
    cases heq
    rfl
  next heq =>
    rw [hop] at heq
    cases heq

/-- `CScript::GetSigOpCount(const CScript& scriptSig)`, on a `scriptPubKey`. -/
def GetSigOpCountP2SH (scriptPubKey scriptSig : CScript) : Nat :=
  if !IsPayToScriptHash scriptPubKey then GetSigOpCount scriptPubKey true
  else match lastPushData [] scriptSig with
    | some vData => GetSigOpCount vData true
    | none => 0

end BitcoinPQ

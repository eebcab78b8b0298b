import Mathlib
import BitcoinPQ.Core.Relax

/-!
# XMSS key use counters

`keystore.cpp`, `key.cpp` and `wallet.cpp`. An XMSS key signs each message with one
leaf of its tree, and must never sign with a leaf twice. The node keeps, for each key,
the index of the next leaf in memory (`mapKeyUseCount`) and in the wallet database
(the `keyuses` records), which a restart loads back into memory. A signature takes its
leaf from `GetKeyUseCountInc`, which advances the memory count when there is one, and
reports the index `xmss_sign` leaves behind through `SetKeyUseCount`, which raises the
memory count and writes the database only when the reported index is larger.

Left out: the message and the signature bytes (a signature is the leaf it uses), the
wallet's encryption, the database's failures to write, and the locks.
-/

namespace BitcoinPQ

open Relax

/-- What ends a signing: the `std::runtime_error` of `check_use_count`. -/
inductive KeyError
  | runtime_error (what : String)
  deriving DecidableEq

/-- `CWallet`, the part that keeps the key use counts. -/
structure CWallet (κ : Type) where
  /-- `CBasicKeyStore::mapKeyUseCount`. -/
  mapKeyUseCount : κ → Option Nat
  /-- The `keyuses` records of the wallet database. -/
  keyuses : κ → Option Nat
  /-- The keys the wallet holds, by `CKeyID`. -/
  keys : κ → Bool

/-- An XMSS private key: the id of its public key, and the height of its tree. -/
structure XMSSKey (κ : Type) where
  keyid : κ
  tree_height : Nat

section Counts

variable {κ : Type} [DecidableEq κ]

namespace CBasicKeyStore

/-- `CBasicKeyStore::GetKeyUseCount`. -/
def GetKeyUseCount (mapKeyUseCount : κ → Option Nat) (address : κ) : Nat :=
  (mapKeyUseCount address).getD 0

/-- `CBasicKeyStore::GetKeyUseCountInc`: the count, advanced in memory when there is
one; a key without one gets `0` and no entry. -/
def GetKeyUseCountInc (mapKeyUseCount : κ → Option Nat) (address : κ) :
    Nat × (κ → Option Nat) :=
  match mapKeyUseCount address with
  | some c => (c, Function.update mapKeyUseCount address (some (c + 1)))
  | none => (0, mapKeyUseCount)

/-- `CBasicKeyStore::SetKeyUseCount`: raise the count to `use_count`. The entry is made
at `0` by `operator[]` before the comparison, and stays when nothing is raised. -/
def SetKeyUseCount (mapKeyUseCount : κ → Option Nat) (address : κ) (use_count : Nat) :
    Bool × (κ → Option Nat) :=
  let iref := (mapKeyUseCount address).getD 0
  if use_count ≤ iref then (false, Function.update mapKeyUseCount address (some iref))
  else (true, Function.update mapKeyUseCount address (some use_count))

end CBasicKeyStore

namespace CWallet

/-- `CWallet::SetKeyUseCount`: the database is written only when memory was raised. -/
def SetKeyUseCount (w : CWallet κ) (address : κ) (use_count : Nat) : Bool × CWallet κ :=
  match CBasicKeyStore.SetKeyUseCount w.mapKeyUseCount address use_count with
  | (false, m) => (false, { w with mapKeyUseCount := m })
  | (true, m) =>
    if w.keys address then
      (true, { w with
        mapKeyUseCount := m
        keyuses := Function.update w.keyuses address (some use_count) })
    else (false, { w with mapKeyUseCount := m })

/-- `CWallet::UpdateUseCount` for one signature found in a transaction: as
`SetKeyUseCount`, without asking for the public key. -/
def UpdateUseCount (w : CWallet κ) (address : κ) (use_count : Nat) : CWallet κ :=
  match CBasicKeyStore.SetKeyUseCount w.mapKeyUseCount address use_count with
  | (false, m) => { w with mapKeyUseCount := m }
  | (true, m) =>
    { w with
      mapKeyUseCount := m
      keyuses := Function.update w.keyuses address (some use_count) }

/-- `CWallet::AddKeyPubKeyWithDB` and `CWallet::AddCryptedKey`: the key, and a
`keyuses` record of its count. -/
def AddKey (w : CWallet κ) (address : κ) : CWallet κ :=
  { w with
    keys := Function.update w.keys address true
    keyuses := Function.update w.keyuses address
      (some (CBasicKeyStore.GetKeyUseCount w.mapKeyUseCount address)) }

/-- A restart: `LoadKeyUseCount` of every `keyuses` record into an empty map. -/
def Restart (w : CWallet κ) : CWallet κ := { w with mapKeyUseCount := w.keyuses }

end CWallet

end Counts

/-! ## Signing -/

section Signing

variable {κ : Type} [DecidableEq κ] {σ : Type}

/-- `check_use_count`, with no transaction outputs counted (`txo_count = 0` at every
call): at most half the leaves are used. `CKey::force_signing` skips it. -/
def check_use_count (force_signing : Bool) (max_use_count use_count utxo_count : Nat) :
    ExceptT KeyError (StateM σ) Unit :=
  if force_signing then pure () else do
    failIf (use_count ≥ max_use_count / 2) (.runtime_error "key use_count exeedes half limit")
    failIf (utxo_count ≥ (max_use_count - use_count) / 2)
      (.runtime_error "key UTXO count exeedes half limit")

/-- The XMSS branch of the signing functions of `CKey`, returning the leaf it signs
with. With a key store (`m_pKeyStore`), the leaf comes from `GetKeyUseCountInc`, and the
index `xmss_sign` leaves behind goes back through `SetKeyUseCount`; without one, the leaf
is `0`. `check` says whether the function calls `check_use_count`. -/
def signXMSS (xmss_sign : Nat → Nat) (force_signing check m_pKeyStore : Bool)
    (key : XMSSKey κ) : ExceptT KeyError (StateM (CWallet κ)) Nat :=
  if m_pKeyStore then do
    let w ← get
    let (use_count, m) := CBasicKeyStore.GetKeyUseCountInc w.mapKeyUseCount key.keyid
    set { w with mapKeyUseCount := m }
    if check then check_use_count force_signing (2 ^ key.tree_height) use_count 0
    modify fun w => (CWallet.SetKeyUseCount w key.keyid (xmss_sign use_count)).2
    pure use_count
  else pure 0

/-- `CKey::Sign`. -/
def CKey.Sign (xmss_sign : Nat → Nat) (force_signing m_pKeyStore : Bool) (key : XMSSKey κ) :
    ExceptT KeyError (StateM (CWallet κ)) Nat :=
  signXMSS xmss_sign force_signing true m_pKeyStore key

/-- `CKey::SignHash`. -/
def CKey.SignHash (xmss_sign : Nat → Nat) (force_signing m_pKeyStore : Bool) (key : XMSSKey κ) :
    ExceptT KeyError (StateM (CWallet κ)) Nat :=
  signXMSS xmss_sign force_signing true m_pKeyStore key

/-- `CKey::SignCompact` of a message, which does not call `check_use_count`. (Of a hash,
it is `SignHash`.) -/
def CKey.SignCompact (xmss_sign : Nat → Nat) (force_signing m_pKeyStore : Bool)
    (key : XMSSKey κ) : ExceptT KeyError (StateM (CWallet κ)) Nat :=
  signXMSS xmss_sign force_signing false m_pKeyStore key

end Signing

/-! ## The node -/

/-- What the node does that reads or writes a key use count. -/
inductive KeyOp (κ : Type)
  /-- `CKey::Sign` or `CKey::SignHash` of a wallet key: `GetKey` attaches the wallet. -/
  | Sign (key : XMSSKey κ)
  /-- `CKey::SignCompact` of a message with a wallet key. -/
  | SignCompact (key : XMSSKey κ)
  /-- `CWallet::SetKeyUseCount`. -/
  | SetKeyUseCount (address : κ) (use_count : Nat)
  /-- A transaction added to the wallet holding a signature of `address` with leaf
  `leaf`: `UpdateUseCount` with `leaf + 1`. -/
  | UpdateUseCount (address : κ) (leaf : Nat)
  /-- A key added to the wallet. -/
  | AddKey (address : κ)
  /-- The node restarts. -/
  | Restart
  /-- `signmessagewithprivkey`: `CKey::SignCompact` of a hash with a key decoded from
  a `CBitcoinSecret`, which has no key store. -/
  | SignMessageWithPrivKey (key : XMSSKey κ)

section Node

variable {κ : Type} [DecidableEq κ]

/-- One operation, with the signature it makes: its key and leaf. -/
def KeyOp.exec (xmss_sign : Nat → Nat) (force_signing : Bool) :
    KeyOp κ → ExceptT KeyError (StateM (CWallet κ)) (Option (κ × Nat))
  | .Sign key => (fun leaf => some (key.keyid, leaf)) <$> CKey.Sign xmss_sign force_signing true key
  | .SignCompact key =>
    (fun leaf => some (key.keyid, leaf)) <$> CKey.SignCompact xmss_sign force_signing true key
  | .SetKeyUseCount address use_count =>
    modify (fun w => (CWallet.SetKeyUseCount w address use_count).2) *> pure none
  | .UpdateUseCount address leaf =>
    modify (fun w => CWallet.UpdateUseCount w address (leaf + 1)) *> pure none
  | .AddKey address => modify (fun w => CWallet.AddKey w address) *> pure none
  | .Restart => modify CWallet.Restart *> pure none
  | .SignMessageWithPrivKey key =>
    (fun leaf => some (key.keyid, leaf)) <$> CKey.SignHash xmss_sign force_signing false key

/-- A run of the node: the signatures it makes, in order, and the wallet after it. A
signing that throws makes no signature, and the node goes on. -/
def runKeyOps (xmss_sign : Nat → Nat) (force_signing : Bool) :
    CWallet κ → List (KeyOp κ) → List (κ × Nat) × CWallet κ
  | w, [] => ([], w)
  | w, op :: ops =>
    match (op.exec xmss_sign force_signing).run.run w with
    | (.ok (some sig), w') =>
      let (sigs, w'') := runKeyOps xmss_sign force_signing w' ops
      (sig :: sigs, w'')
    | (_, w') => runKeyOps xmss_sign force_signing w' ops

end Node

/-! ## Counts only grow within a run

Every operation but a restart raises the memory counts or leaves them, and a signature
with a wallet key uses the count it found, then leaves a larger one. So within one run
of the node, as long as `xmss_sign` moves its index forward, no leaf is used twice. -/

section Grow

variable {κ : Type}

/-- Every count of `m` is still there in `m'`, no smaller. -/
def CountsGrow (m m' : κ → Option Nat) : Prop :=
  ∀ address c, m address = some c → ∃ c', m' address = some c' ∧ c ≤ c'

theorem CountsGrow.refl (m : κ → Option Nat) : CountsGrow m m :=
  fun _ c h => ⟨c, h, Nat.le_refl c⟩

theorem CountsGrow.trans {m m' m'' : κ → Option Nat} (h : CountsGrow m m')
    (h' : CountsGrow m' m'') : CountsGrow m m'' := by
  intro address c hc
  obtain ⟨c', hc', hle⟩ := h address c hc
  obtain ⟨c'', hc'', hle'⟩ := h' address c' hc'
  exact ⟨c'', hc'', Nat.le_trans hle hle'⟩

variable [DecidableEq κ]

/-- Setting one count to a value no smaller makes the counts grow. -/
theorem CountsGrow.update (m : κ → Option Nat) (address : κ) {c' : Nat}
    (h : (m address).getD 0 ≤ c') : CountsGrow m (Function.update m address (some c')) := by
  intro a c hc
  by_cases ha : a = address
  · subst ha
    rw [hc, Option.getD_some] at h
    exact ⟨c', Function.update_self .., h⟩
  · exact ⟨c, by rw [Function.update_of_ne ha, hc], Nat.le_refl c⟩

namespace CBasicKeyStore

theorem GetKeyUseCountInc_fst (m : κ → Option Nat) (address : κ) :
    (GetKeyUseCountInc m address).1 = GetKeyUseCount m address := by
  unfold GetKeyUseCountInc GetKeyUseCount
  cases m address <;> rfl

theorem GetKeyUseCountInc_grow (m : κ → Option Nat) (address : κ) :
    CountsGrow m (GetKeyUseCountInc m address).2 := by
  unfold GetKeyUseCountInc
  rcases hm : m address with _ | c
  · exact CountsGrow.refl m
  · exact CountsGrow.update m address (by rw [hm, Option.getD_some]; omega)

theorem SetKeyUseCount_grow (m : κ → Option Nat) (address : κ) (use_count : Nat) :
    CountsGrow m (SetKeyUseCount m address use_count).2 := by
  unfold SetKeyUseCount
  dsimp only
  by_cases h : use_count ≤ (m address).getD 0
  · rw [if_pos h]
    exact CountsGrow.update m address (Nat.le_refl _)
  · rw [if_neg h]
    exact CountsGrow.update m address (by omega)

/-- After `SetKeyUseCount`, the count is at least the one reported. -/
theorem SetKeyUseCount_self (m : κ → Option Nat) (address : κ) (use_count : Nat) :
    (SetKeyUseCount m address use_count).2 address = some (max ((m address).getD 0) use_count) := by
  unfold SetKeyUseCount
  dsimp only
  by_cases h : use_count ≤ (m address).getD 0
  · rw [if_pos h]
    dsimp only
    rw [Function.update_self, Nat.max_eq_left h]
  · rw [if_neg h]
    dsimp only
    rw [Function.update_self, Nat.max_eq_right (by omega)]

end CBasicKeyStore

namespace CWallet

@[simp] theorem SetKeyUseCount_mapKeyUseCount (w : CWallet κ) (address : κ) (use_count : Nat) :
    (SetKeyUseCount w address use_count).2.mapKeyUseCount =
      (CBasicKeyStore.SetKeyUseCount w.mapKeyUseCount address use_count).2 := by
  unfold SetKeyUseCount
  rcases CBasicKeyStore.SetKeyUseCount w.mapKeyUseCount address use_count with ⟨_ | _, m⟩
  · rfl
  · dsimp only
    cases w.keys address <;> rfl

@[simp] theorem UpdateUseCount_mapKeyUseCount (w : CWallet κ) (address : κ) (use_count : Nat) :
    (UpdateUseCount w address use_count).mapKeyUseCount =
      (CBasicKeyStore.SetKeyUseCount w.mapKeyUseCount address use_count).2 := by
  unfold UpdateUseCount
  rcases CBasicKeyStore.SetKeyUseCount w.mapKeyUseCount address use_count with ⟨_ | _, m⟩ <;> rfl

end CWallet

/-- `check_use_count` only reads. -/
theorem check_use_count_state {σ : Type} (force_signing : Bool) (max_use_count use_count utxo_count : Nat)
    (s : σ) : ((check_use_count force_signing max_use_count use_count utxo_count :
      ExceptT KeyError (StateM σ) Unit).run.run s).2 = s := by
  unfold check_use_count
  cases force_signing
  · rw [if_neg Bool.false_ne_true, run_bind]
    by_cases h₁ : use_count ≥ max_use_count / 2
    · rw [failIf_pos _ h₁]
      rfl
    · rw [failIf_neg _ h₁]
      by_cases h₂ : utxo_count ≥ (max_use_count - use_count) / 2
      · rw [failIf_pos _ h₂]
        rfl
      · rw [failIf_neg _ h₂]
        rfl
  · rfl

/-- What a signing with a key store does to the counts: they grow, and a signature uses
the count it found for its key and leaves a larger one there. -/
def SignSpec (w : CWallet κ) (keyid : κ) (r : Except KeyError Nat) (w' : CWallet κ) : Prop :=
  CountsGrow w.mapKeyUseCount w'.mapKeyUseCount ∧
    ∀ leaf, r = .ok leaf → leaf = CBasicKeyStore.GetKeyUseCount w.mapKeyUseCount keyid ∧
      ∃ c, w'.mapKeyUseCount keyid = some c ∧ leaf < c

/-- The signing functions with a key store, where `xmss_sign` moves the index past the
leaf it signs with. -/
theorem signXMSS_spec {xmss_sign : Nat → Nat} (hx : ∀ i, i < xmss_sign i) (force_signing check : Bool)
    (key : XMSSKey κ) (w : CWallet κ) :
    SignSpec w key.keyid ((signXMSS xmss_sign force_signing check true key).run.run w).1
      ((signXMSS xmss_sign force_signing check true key).run.run w).2 := by
  have hu := CBasicKeyStore.GetKeyUseCountInc_fst w.mapKeyUseCount key.keyid
  have hm := CBasicKeyStore.GetKeyUseCountInc_grow w.mapKeyUseCount key.keyid
  rw [signXMSS, if_pos rfl, run_get_bind]
  generalize CBasicKeyStore.GetKeyUseCountInc w.mapKeyUseCount key.keyid = p at hu hm
  obtain ⟨u, m⟩ := p
  dsimp only at hu hm ⊢
  rw [run_set_bind]
  -- the count reported back is past the leaf
  have hset : ∀ w₂ : CWallet κ, w₂.mapKeyUseCount = m →
      SignSpec w key.keyid (.ok u) (CWallet.SetKeyUseCount w₂ key.keyid (xmss_sign u)).2 := by
    intro w₂ hw₂
    rw [SignSpec, CWallet.SetKeyUseCount_mapKeyUseCount, hw₂]
    refine ⟨hm.trans (CBasicKeyStore.SetKeyUseCount_grow m key.keyid _), ?_⟩
    rintro leaf ⟨⟩
    refine ⟨hu, _, CBasicKeyStore.SetKeyUseCount_self m key.keyid _, ?_⟩
    exact Nat.lt_of_lt_of_le (hx u) (Nat.le_max_right _ _)
  cases check with
  | false => exact hset _ rfl
  | true =>
    rw [if_pos rfl, run_bind]
    have hstate := check_use_count_state force_signing (2 ^ key.tree_height) u 0
      ({ w with mapKeyUseCount := m } : CWallet κ)
    rcases hcheck : (check_use_count force_signing (2 ^ key.tree_height) u 0 :
        ExceptT KeyError (StateM (CWallet κ)) Unit).run.run { w with mapKeyUseCount := m } with ⟨r, w₂⟩
    rw [hcheck] at hstate
    subst hstate
    cases r with
    | error e => exact ⟨hm, fun _ h => by cases h⟩
    | ok _ => exact hset _ rfl

omit [DecidableEq κ] in
/-- Signatures below the counts of their keys. -/
def SignedBelow (sigs : List (κ × Nat)) (m : κ → Option Nat) : Prop :=
  ∀ sig ∈ sigs, ∃ c, m sig.1 = some c ∧ sig.2 < c

omit [DecidableEq κ] in
theorem SignedBelow.mono {sigs : List (κ × Nat)} {m m' : κ → Option Nat} (h : SignedBelow sigs m)
    (hg : CountsGrow m m') : SignedBelow sigs m' := by
  intro sig hsig
  obtain ⟨c, hc, hlt⟩ := h sig hsig
  obtain ⟨c', hc', hle⟩ := hg sig.1 c hc
  exact ⟨c', hc', Nat.lt_of_lt_of_le hlt hle⟩

omit [DecidableEq κ] in
/-- The leaf a count names is none of the leaves signed below it. -/
theorem SignedBelow.not_mem {sigs : List (κ × Nat)} {m : κ → Option Nat} (h : SignedBelow sigs m)
    (address : κ) : (address, CBasicKeyStore.GetKeyUseCount m address) ∉ sigs := by
  intro hmem
  obtain ⟨c, hc, hlt⟩ := h _ hmem
  rw [CBasicKeyStore.GetKeyUseCount] at hlt
  dsimp only at hc hlt
  rw [hc, Option.getD_some] at hlt
  exact Nat.lt_irrefl c hlt

/-- The operations that keep the counts: all but a restart and `signmessagewithprivkey`. -/
def KeyOp.keepsCounts : KeyOp κ → Bool
  | .Restart | .SignMessageWithPrivKey _ => false
  | _ => true

/-- What an operation that keeps the counts does: they grow, and a signature it makes
uses the count of its key and leaves a larger one. -/
def ExecSpec (w : CWallet κ) (r : Except KeyError (Option (κ × Nat))) (w' : CWallet κ) : Prop :=
  CountsGrow w.mapKeyUseCount w'.mapKeyUseCount ∧
    ∀ sig, r = .ok (some sig) → sig.2 = CBasicKeyStore.GetKeyUseCount w.mapKeyUseCount sig.1 ∧
      ∃ c, w'.mapKeyUseCount sig.1 = some c ∧ sig.2 < c

omit [DecidableEq κ] in
/-- An operation that makes no signature and raises counts only. -/
theorem ExecSpec.of_none {w w' : CWallet κ} (hg : CountsGrow w.mapKeyUseCount w'.mapKeyUseCount) :
    ExecSpec w (.ok none) w' :=
  ⟨hg, fun _ h => by cases h⟩

/-- A signing with a wallet key, tagged with the key. -/
theorem ExecSpec.of_signXMSS {xmss_sign : Nat → Nat} (hx : ∀ i, i < xmss_sign i)
    (force_signing check : Bool) (key : XMSSKey κ) (w : CWallet κ) :
    ExecSpec w (((fun leaf => some (key.keyid, leaf)) <$>
        signXMSS xmss_sign force_signing check true key).run.run w).1
      (((fun leaf => some (key.keyid, leaf)) <$>
        signXMSS xmss_sign force_signing check true key).run.run w).2 := by
  obtain ⟨hg, hleaf⟩ := signXMSS_spec hx force_signing check key w
  rw [run_map]
  refine ⟨hg, ?_⟩
  rintro ⟨address, leaf⟩ h
  rcases hr : ((signXMSS xmss_sign force_signing check true key).run.run w).1 with e | leaf'
  · rw [hr] at h
    cases h
  · rw [hr] at h
    -- the signature is the key's, with the leaf the signing returned
    have hsig : (address, leaf) = (key.keyid, leaf') := (Option.some.inj (Except.ok.inj h)).symm
    obtain ⟨rfl, rfl⟩ := Prod.mk.inj hsig
    exact hleaf leaf hr

/-- One operation that keeps the counts. -/
theorem KeyOp.exec_spec {xmss_sign : Nat → Nat} (hx : ∀ i, i < xmss_sign i) (force_signing : Bool)
    (op : KeyOp κ) (hop : op.keepsCounts = true) (w : CWallet κ) :
    ExecSpec w ((op.exec xmss_sign force_signing).run.run w).1
      ((op.exec xmss_sign force_signing).run.run w).2 := by
  cases op with
  | Sign key => exact ExecSpec.of_signXMSS hx force_signing true key w
  | SignCompact key => exact ExecSpec.of_signXMSS hx force_signing false key w
  | SetKeyUseCount address use_count =>
    refine ExecSpec.of_none ?_
    show CountsGrow w.mapKeyUseCount (CWallet.SetKeyUseCount w address use_count).2.mapKeyUseCount
    rw [CWallet.SetKeyUseCount_mapKeyUseCount]
    exact CBasicKeyStore.SetKeyUseCount_grow _ _ _
  | UpdateUseCount address leaf =>
    refine ExecSpec.of_none ?_
    show CountsGrow w.mapKeyUseCount (CWallet.UpdateUseCount w address (leaf + 1)).mapKeyUseCount
    rw [CWallet.UpdateUseCount_mapKeyUseCount]
    exact CBasicKeyStore.SetKeyUseCount_grow _ _ _
  | AddKey address => exact ExecSpec.of_none (CountsGrow.refl _)
  | Restart => cases hop
  | SignMessageWithPrivKey key => cases hop

/-- A run of operations that keep the counts, after signatures below the counts: no
signature is made twice, and all stay below the counts. -/
theorem runKeyOps_signedBelow {xmss_sign : Nat → Nat} (hx : ∀ i, i < xmss_sign i)
    (force_signing : Bool) (ops : List (KeyOp κ)) (hops : ∀ op ∈ ops, op.keepsCounts = true)
    (w : CWallet κ) (sigs : List (κ × Nat)) (hnd : sigs.Nodup)
    (hbelow : SignedBelow sigs w.mapKeyUseCount) :
    (sigs ++ (runKeyOps xmss_sign force_signing w ops).1).Nodup ∧
      SignedBelow (sigs ++ (runKeyOps xmss_sign force_signing w ops).1)
        (runKeyOps xmss_sign force_signing w ops).2.mapKeyUseCount := by
  induction ops generalizing w sigs with
  | nil =>
    rw [runKeyOps, List.append_nil]
    exact ⟨hnd, hbelow⟩
  | cons op ops ih =>
    have hrest : ∀ op ∈ ops, op.keepsCounts = true := fun op' h => hops op' (List.mem_cons_of_mem op h)
    obtain ⟨hg, hsig⟩ := KeyOp.exec_spec hx force_signing op (hops op List.mem_cons_self) w
    rw [runKeyOps]
    rcases hrun : (op.exec xmss_sign force_signing).run.run w with ⟨r, w'⟩
    rw [hrun] at hg hsig
    dsimp only at hg hsig
    -- a new signature is not among the earlier ones, and stays below its count
    rcases r with e | _ | sig
    · exact ih hrest w' sigs hnd (hbelow.mono hg)
    · exact ih hrest w' sigs hnd (hbelow.mono hg)
    · obtain ⟨hleaf, c, hc, hlt⟩ := hsig sig rfl
      have hfresh : sig ∉ sigs := by
        have h := hbelow.not_mem sig.1
        rwa [← hleaf] at h
      have hbelow' : SignedBelow (sigs ++ [sig]) w'.mapKeyUseCount := by
        intro sig' hmem
        rcases List.mem_append.mp hmem with hmem | hmem
        · exact hbelow.mono hg sig' hmem
        · rw [List.mem_singleton.mp hmem]
          exact ⟨c, hc, hlt⟩
      have hnd' : (sigs ++ [sig]).Nodup := by
        rw [← List.concat_eq_append]
        exact hnd.concat hfresh
      have h := ih hrest w' (sigs ++ [sig]) hnd' hbelow'
      rw [List.append_assoc, List.singleton_append] at h
      exact h

/-- Within one run of the node, with neither a restart nor `signmessagewithprivkey`, a
wallet never signs twice with one leaf of a key, where `xmss_sign` moves the index past
the leaf it signs with. -/
theorem runKeyOps_nodup {xmss_sign : Nat → Nat} (hx : ∀ i, i < xmss_sign i) (force_signing : Bool)
    (w : CWallet κ) (ops : List (KeyOp κ)) (hops : ∀ op ∈ ops, op.keepsCounts = true) :
    (runKeyOps xmss_sign force_signing w ops).1.Nodup := by
  have h := runKeyOps_signedBelow hx force_signing ops hops w [] List.nodup_nil (fun _ h => by cases h)
  rw [List.nil_append] at h
  exact h.1

/-- Two keys of a new wallet sign in turn; a transaction with a later leaf of the second
key and a `SetKeyUseCount` to a lower count come between, and a key the wallet does not
hold signs once. -/
def twoKeyOps : List (KeyOp Nat) :=
  [.AddKey 0, .AddKey 1, .Sign ⟨0, 10⟩, .SignCompact ⟨1, 10⟩, .UpdateUseCount 1 5,
    .SetKeyUseCount 0 0, .Sign ⟨0, 10⟩, .Sign ⟨1, 10⟩, .Sign ⟨2, 10⟩, .Sign ⟨0, 10⟩]

theorem runKeyOps_nodup_twoKeyOps :
    (runKeyOps (fun i => i + 1) false ⟨fun _ => none, fun _ => none, fun _ => false⟩ twoKeyOps).1 =
        [(0, 0), (1, 0), (0, 1), (1, 6), (2, 0), (0, 2)] ∧
      (runKeyOps (fun i => i + 1) false ⟨fun _ => none, fun _ => none, fun _ => false⟩ twoKeyOps).1.Nodup :=
  ⟨by decide, runKeyOps_nodup (fun i => Nat.lt_succ_self i) false _ _ (by decide)⟩

end Grow

/-! ## Across a restart -/

/-- A new key of a new wallet, where `xmss_sign` leaves the index just past the leaf:
two signatures, a restart, and a third signature with the leaf of the second. A key
handed to `signmessagewithprivkey` signs with leaf `0` at every call. -/
theorem runKeyOps_restart_reuses_leaf :
    (runKeyOps (fun i => i + 1) false ⟨fun _ => none, fun _ => none, fun _ => false⟩
      [.AddKey 0, .Sign ⟨0, 10⟩, .Sign ⟨0, 10⟩, .Restart, .Sign ⟨0, 10⟩]).1 = [(0, 0), (0, 1), (0, 1)] ∧
    (runKeyOps (fun i => i + 1) false ⟨fun _ => none, fun _ => none, fun _ => false⟩
      [.SignMessageWithPrivKey ⟨0, 10⟩, .SignMessageWithPrivKey ⟨0, 10⟩]).1 = [(0, 0), (0, 0)] :=
  ⟨rfl, rfl⟩

end BitcoinPQ

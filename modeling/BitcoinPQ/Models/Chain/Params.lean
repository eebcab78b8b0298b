import BitcoinPQ.Models.Primitives.Transaction

/-!
# Chain parameters

`consensus/params.h` and `chainparams.cpp`: the consensus parameters and the address
prefixes of the three chains, restricted to the fields that the modelled functions
read. The `int` fields are integers; none of the values comes near the 32-bit range.
-/

namespace BitcoinPQ

namespace Consensus

/-- `Consensus::DeploymentPos`. -/
inductive DeploymentPos where
  | DEPLOYMENT_TESTDUMMY
  | DEPLOYMENT_CSV
  | DEPLOYMENT_SEGWIT
  deriving DecidableEq, Repr

/-- `Consensus::BIP9Deployment`. -/
structure BIP9Deployment where
  bit : Int
  nStartTime : Int
  nTimeout : Int
  deriving DecidableEq, Repr

/-- `BIP9Deployment::NO_TIMEOUT`. -/
def NO_TIMEOUT : Int := 2 ^ 63 - 1

/-- `BIP9Deployment::ALWAYS_ACTIVE`. -/
def ALWAYS_ACTIVE : Int := -1

/-- `Consensus::Params`. -/
structure Params where
  nSubsidyHalvingInterval : Int
  BIP34Height : Int
  BIP65Height : Int
  BIP66Height : Int
  BPQHeight : Int
  BPQPremineWindow : Int
  nRuleChangeActivationThreshold : Nat
  nMinerConfirmationWindow : Nat
  vDeployments : DeploymentPos → BIP9Deployment
  nSolutionSize : Nat
  powLimit : UInt256
  powLimitLegacy : UInt256
  fPowAllowMinDifficultyBlocks : Bool
  fPowNoRetargeting : Bool
  nPowTargetSpacing : Int
  nPowTargetTimespan : Int

namespace Params

/-- `Params::PowLimit(postfork)`: the fork's limit, or the legacy one before it. -/
def PowLimit (p : Params) (postfork : Bool) : UInt256 :=
  if postfork then p.powLimit else p.powLimitLegacy

/-- `Params::DifficultyAdjustmentInterval()`. -/
def DifficultyAdjustmentInterval (p : Params) : Int :=
  p.nPowTargetTimespan / p.nPowTargetSpacing

end Params

end Consensus

/-- `CChainParams::Base58Type`. -/
inductive Base58Type where
  | PUBKEY_ADDRESS
  | SCRIPT_ADDRESS
  | SECRET_KEY
  | EXT_PUBLIC_KEY
  | EXT_SECRET_KEY
  deriving DecidableEq, Repr

/-- `CChainParams`: the consensus parameters, the base58 version prefixes and the
two bech32 human-readable parts, one for Bitcoin's witness versions and one for
this fork's. -/
structure CChainParams where
  consensus : Consensus.Params
  base58Prefixes : Base58Type → List UInt8
  bech32_hrp_bitcoin : List Char
  bech32_hrp_bpq : List Char

namespace CChainParams

def GetConsensus (p : CChainParams) : Consensus.Params := p.consensus

@[simp] theorem GetConsensus_eq (p : CChainParams) : p.GetConsensus = p.consensus := rfl

def Base58Prefix (p : CChainParams) (type : Base58Type) : List UInt8 := p.base58Prefixes type

def Bech32HRP_Bitcoin (p : CChainParams) : List Char := p.bech32_hrp_bitcoin

def Bech32HRP_BPQ (p : CChainParams) : List Char := p.bech32_hrp_bpq

end CChainParams

open Consensus in
/-- `CMainParams`. -/
def mainParams : CChainParams where
  consensus := {
    nSubsidyHalvingInterval := 210000
    BIP34Height := 227931
    BIP65Height := 388381
    BIP66Height := 363725
    BPQHeight := 555000
    BPQPremineWindow := 48
    nRuleChangeActivationThreshold := 1916
    nMinerConfirmationWindow := 2016
    vDeployments := fun
      | .DEPLOYMENT_TESTDUMMY => ⟨28, 1199145601, 1230767999⟩
      | .DEPLOYMENT_CSV => ⟨0, 1462060800, 1493596800⟩
      | .DEPLOYMENT_SEGWIT => ⟨1, 1479168000, 1510704000⟩
    nSolutionSize := 25
    -- uint256S("00ff...ff") and uint256S("00000000ff...ff"), least significant byte first
    powLimit := ⟨List.replicate 31 0xff ++ [0x00], rfl⟩
    powLimitLegacy := ⟨List.replicate 28 0xff ++ List.replicate 4 0x00, rfl⟩
    fPowAllowMinDifficultyBlocks := false
    fPowNoRetargeting := false
    nPowTargetSpacing := 10 * 60
    nPowTargetTimespan := 14 * 24 * 60 * 60 }
  base58Prefixes := fun
    | .PUBKEY_ADDRESS => [0]
    | .SCRIPT_ADDRESS => [5]
    | .SECRET_KEY => [128]
    | .EXT_PUBLIC_KEY => [0x04, 0x88, 0xB2, 0x1E]
    | .EXT_SECRET_KEY => [0x04, 0x88, 0xAD, 0xE4]
  bech32_hrp_bitcoin := ['b', 'c']
  bech32_hrp_bpq := ['p', 'q']

open Consensus in
/-- `CTestNetParams`. -/
def testNetParams : CChainParams where
  consensus := {
    nSubsidyHalvingInterval := 210000
    BIP34Height := 21111
    BIP65Height := 581885
    BIP66Height := 330776
    BPQHeight := 1445550
    BPQPremineWindow := 48
    nRuleChangeActivationThreshold := 1512
    nMinerConfirmationWindow := 2016
    vDeployments := fun
      | .DEPLOYMENT_TESTDUMMY => ⟨28, 1199145601, 1230767999⟩
      | .DEPLOYMENT_CSV => ⟨0, 1456790400, 1493596800⟩
      | .DEPLOYMENT_SEGWIT => ⟨1, 1462060800, 1493596800⟩
    nSolutionSize := 25
    -- uint256S("00ff...ff") and uint256S("00000000ff...ff"), least significant byte first
    powLimit := ⟨List.replicate 31 0xff ++ [0x00], rfl⟩
    powLimitLegacy := ⟨List.replicate 28 0xff ++ List.replicate 4 0x00, rfl⟩
    fPowAllowMinDifficultyBlocks := true
    fPowNoRetargeting := false
    nPowTargetSpacing := 10 * 60
    nPowTargetTimespan := 14 * 24 * 60 * 60 }
  base58Prefixes := fun
    | .PUBKEY_ADDRESS => [111]
    | .SCRIPT_ADDRESS => [196]
    | .SECRET_KEY => [239]
    | .EXT_PUBLIC_KEY => [0x04, 0x35, 0x87, 0xCF]
    | .EXT_SECRET_KEY => [0x04, 0x35, 0x83, 0x94]
  bech32_hrp_bitcoin := ['t', 'b']
  bech32_hrp_bpq := ['t', 'q']

open Consensus in
/-- `CRegTestParams`. -/
def regTestParams : CChainParams where
  consensus := {
    nSubsidyHalvingInterval := 150
    BIP34Height := 100000000
    BIP65Height := 1351
    BIP66Height := 1251
    BPQHeight := 101
    BPQPremineWindow := 48
    nRuleChangeActivationThreshold := 108
    nMinerConfirmationWindow := 144
    vDeployments := fun
      | .DEPLOYMENT_TESTDUMMY => ⟨28, 0, NO_TIMEOUT⟩
      | .DEPLOYMENT_CSV => ⟨0, 0, NO_TIMEOUT⟩
      | .DEPLOYMENT_SEGWIT => ⟨1, ALWAYS_ACTIVE, NO_TIMEOUT⟩
    nSolutionSize := 68
    -- uint256S("7fff...ff") for both
    powLimit := ⟨List.replicate 31 0xff ++ [0x7f], rfl⟩
    powLimitLegacy := ⟨List.replicate 31 0xff ++ [0x7f], rfl⟩
    fPowAllowMinDifficultyBlocks := true
    fPowNoRetargeting := true
    nPowTargetSpacing := 10 * 60
    nPowTargetTimespan := 14 * 24 * 60 * 60 }
  base58Prefixes := fun
    | .PUBKEY_ADDRESS => [111]
    | .SCRIPT_ADDRESS => [196]
    | .SECRET_KEY => [239]
    | .EXT_PUBLIC_KEY => [0x04, 0x35, 0x87, 0xCF]
    | .EXT_SECRET_KEY => [0x04, 0x35, 0x83, 0x94]
  bech32_hrp_bitcoin := ['b', 'c', 'r', 't']
  bech32_hrp_bpq := ['p', 'q', 'r', 't']

end BitcoinPQ

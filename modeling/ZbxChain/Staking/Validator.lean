import Mathlib.Data.Finset.Insert
import Mathlib.Data.List.Sort
import ZbxChain.Storage.Db

/-!
# Validators

The validator registry of `zbx-staking/src/validator.rs`, as far as staking transactions
use it. Amounts are `u128`.
-/

namespace ZbxChain

/-- The errors that staking transactions and the slashing pipeline raise. -/
inductive StakingError
  | alreadyRegistered (addr : Address)
  | notFound (addr : Address)
  | insufficientSelfStake (have_ need : Nat)
  | jailed
  | delegationTooSmall (minimum : Nat)
  | noPendingRewards (addr : Address)
  | invalidEvidence (message : String)
  | unexpectedValue (got expected : Nat)
  | insufficientDelegation (have_ requested : Nat)
  | nothingToWithdraw
  | notAValidator (addr : Address)
  | badPayload (message : String)
  | escrowUnderflow (have_ need : Nat)
  | evidenceNotFound
  | appealNotAllowed
  | appealWindowExpired
  | appealNotByOffender
  | appealBondMismatch (got need : Nat)
  | overturnNotAllowed
  | persistence (message : String)
  deriving DecidableEq

inductive ValidatorStatus
  | pending
  | active
  | jailed
  | unbonding (untilBlock : UInt64)
  | inactive
  | tombstoned
  deriving DecidableEq

structure Validator where
  address : Address
  blsPubkey : Bytes
  selfStake : Nat
  delegatedStake : Nat
  commissionBps : Nat
  status : ValidatorStatus
  lastSignedBlock : UInt64
  pendingRewards : Nat
  delegatorRewardPool : Nat
  poolDenominator : Nat
  registeredEpoch : UInt64
  deriving DecidableEq

/-- The share of a delegator in the pool; a product that overflows is computed the other
way round. -/
def Validator.delegatorShare (v : Validator) (delegatorStake : Nat) : Nat :=
  let pool := v.delegatorRewardPool
  let share :=
    if 0 < v.poolDenominator then
      if pool * delegatorStake < 2 ^ 128 then pool * delegatorStake / v.poolDenominator
      else min (pool / v.poolDenominator * delegatorStake) (2 ^ 128 - 1)
    else pool
  min share pool

/-- `claim_delegator_share`: the share, and the validator without it. -/
def Validator.claimDelegatorShare (v : Validator) (delegatorStake : Nat) : Nat × Validator :=
  if v.delegatorRewardPool = 0 then (0, v)
  else
    let share := v.delegatorShare delegatorStake
    (share, { v with
      delegatorRewardPool := v.delegatorRewardPool - share
      poolDenominator := v.poolDenominator - delegatorStake })

structure ValidatorSet where
  validators : Map Address Validator
  activeSet : List Address
  currentEpoch : UInt64

/-- The signature scheme: which strings are keys and signatures, and the check of a proof
of possession. -/
structure Bls where
  pubkeyError : Bytes → Option String
  signatureError : Bytes → Option String
  verifyPop : Bytes → Bytes → Address → Bool

namespace ValidatorSet

def minSelfStake : Nat := 100000 * 10 ^ 18

def new : ValidatorSet := ⟨∅, [], 0⟩

variable (vs : ValidatorSet)

def get (addr : Address) : Option Validator := vs.validators.lookup addr

def put (addr : Address) (v : Validator) : ValidatorSet :=
  { vs with validators := vs.validators.insert addr v }

def register (address : Address) (blsPubkey : Bytes) (selfStake : Nat)
    (commissionBps : Nat) : Except StakingError ValidatorSet :=
  if (vs.get address).isSome then .error (.alreadyRegistered address)
  else if selfStake < minSelfStake then .error (.insufficientSelfStake selfStake minSelfStake)
  else .ok (vs.put address {
    address := address
    blsPubkey := blsPubkey
    selfStake := selfStake
    delegatedStake := 0
    commissionBps := min commissionBps 2000
    status := .pending
    lastSignedBlock := 0
    pendingRewards := 0
    delegatorRewardPool := 0
    poolDenominator := 0
    registeredEpoch := vs.currentEpoch })

def registerWithPop (bls : Bls) (vs : ValidatorSet) (address : Address) (blsPubkey blsPop : Bytes)
    (selfStake commissionBps : Nat) : Except StakingError ValidatorSet :=
  if bls.verifyPop blsPubkey blsPop address then
    vs.register address blsPubkey selfStake commissionBps
  else .error (.invalidEvidence
    "BLS Proof-of-Possession does not verify under keccak256(address || \"zbx-bls-pop-v1\")")

def delegate (dst : Address) (amount : Nat) : Except StakingError ValidatorSet :=
  match vs.get dst with
  | none => .error (.notFound dst)
  | some v =>
    match v.status with
    | .jailed | .inactive | .unbonding _ | .tombstoned => .error .jailed
    | .pending | .active =>
      .ok (vs.put dst { v with delegatedStake := satAddU128 v.delegatedStake amount })

def undelegate (src : Address) (amount : Nat) : Except StakingError ValidatorSet :=
  match vs.get src with
  | none => .error (.notFound src)
  | some v =>
    if v.delegatedStake < amount then .error (.insufficientDelegation v.delegatedStake amount)
    else .ok (vs.put src { v with delegatedStake := v.delegatedStake - amount })

def claimRewards (validator : Address) : Except StakingError (Nat × ValidatorSet) :=
  match vs.get validator with
  | none => .error (.notAValidator validator)
  | some v => .ok (v.pendingRewards, vs.put validator { v with pendingRewards := 0 })

end ValidatorSet

/-- `RewardDistributor::claim_delegator_reward`. The registry is changed also when the
share is zero, which is an error. -/
def claimDelegatorReward (vs : ValidatorSet) (validator delegator : Address)
    (delegatorStake : Nat) : Except StakingError Nat × ValidatorSet :=
  if delegatorStake = 0 then (.error (.noPendingRewards delegator), vs)
  else
    match vs.get validator with
    | none => (.error (.notFound validator), vs)
    | some v =>
      let (share, v') := v.claimDelegatorShare delegatorStake
      (if share = 0 then .error (.noPendingRewards delegator) else .ok share, vs.put validator v')

/-!
## Elections and the slashing detector

The election of the active set (`validator.rs`) and the slash events of the older
`SlashingDetector` (`slashing.rs`), which it remembers by their hashes. The votes and the
missed blocks from which the detector makes its events are left out.
-/

open Keccak

/-! ## Elections -/

def maxValidators : Nat := 100

namespace Validator

def totalStake (v : Validator) : Nat := satAddU128 v.selfStake v.delegatedStake

def isEligible (v : Validator) : Bool :=
  ValidatorSet.minSelfStake ≤ v.selfStake && match v.status with
    | .jailed | .inactive | .unbonding _ | .tombstoned => false
    | .pending | .active => true

end Validator

namespace ValidatorSet

def modify (vs : ValidatorSet) (addr : Address) (f : Validator → Validator) : ValidatorSet :=
  match vs.get addr with
  | some v => vs.put addr (f v)
  | none => vs

def elected (vs : ValidatorSet) : List Address :=
  let eligible := (vs.validators.entries.map (·.2)).filter (·.isEligible)
  let ranked := (eligible.map fun v => (v.address, v.totalStake)).insertionSort fun a b =>
    b.2 < a.2 ∨ (a.2 = b.2 ∧ a.1 ≤ b.1)
  (ranked.take maxValidators).map (·.1)

def demote (v : Validator) : Validator :=
  { v with status := if v.status = .active then .pending else v.status }

def activate (v : Validator) : Validator :=
  { v with status := if v.status = .tombstoned then .tombstoned else .active }

def electActiveSet (vs : ValidatorSet) : ValidatorSet :=
  let newSet := vs.elected
  let dropped := vs.activeSet.filter fun addr => !newSet.contains addr
  let demoted := dropped.foldl (fun vs addr => vs.modify addr demote) vs
  let activated := newSet.foldl (fun vs addr => vs.modify addr activate) demoted
  { activated with activeSet := newSet, currentEpoch := vs.currentEpoch + 1 }

end ValidatorSet

/-! ## The detector -/

inductive SlashEvidence
  | doubleSign (height : UInt64) (hashA hashB : H256)
  | livenessFault (epoch missedBlocks totalBlocks : UInt64)
  | consecutiveMiss (fromBlock count : UInt64)

structure SlashEvent where
  validator : Address
  evidence : SlashEvidence
  slashAmount : Nat
  jailed : Bool

def SlashEvidence.bytes : SlashEvidence → Bytes
  | .doubleSign height hashA hashB =>
    leBytes 8 height.toNat ++ hashA.toBytes ++ hashB.toBytes
  | .livenessFault epoch missedBlocks totalBlocks =>
    leBytes 8 epoch.toNat ++ leBytes 8 missedBlocks.toNat ++
      leBytes 8 totalBlocks.toNat
  | .consecutiveMiss fromBlock count =>
    leBytes 8 fromBlock.toNat ++ leBytes 8 count.toNat

def slashEventId (event : SlashEvent) : H256 :=
  sha3_256 (event.validator.toBytes ++ leBytes 16 event.slashAmount ++
    [if event.jailed then 1 else 0] ++ event.evidence.bytes)

/-- The stake that is left, and the status; the product wraps. -/
def SlashEvent.punish (event : SlashEvent) (v : Validator) : Validator :=
  let slash := min (v.totalStake * event.slashAmount % 2 ^ 128 / 10000) v.selfStake
  let selfStake := v.selfStake - slash
  { v with
    selfStake := selfStake
    status :=
      if event.jailed then .jailed
      else if selfStake < ValidatorSet.minSelfStake ∧ v.status = .active then .pending
      else v.status }

structure SlashingDetector where
  processed : Finset H256

namespace SlashingDetector

def new : SlashingDetector := ⟨∅⟩

def applySlash (s : SlashingDetector × ValidatorSet) (event : SlashEvent) :
    SlashingDetector × ValidatorSet :=
  let id := slashEventId event
  if id ∈ s.1.processed then s
  else (⟨insert id s.1.processed⟩, s.2.modify event.validator event.punish)

def applySlashes (d : SlashingDetector) (events : List SlashEvent) (vs : ValidatorSet) :
    SlashingDetector × ValidatorSet :=
  events.foldl applySlash (d, vs)

end SlashingDetector

end ZbxChain

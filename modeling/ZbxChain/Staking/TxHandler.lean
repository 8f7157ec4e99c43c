import ZbxChain.Staking.Validator

/-!
# Staking transactions

The deferred write set `StakingDelta` (`zbx-staking/src/delta.rs`) and the dispatcher of
staking calls (`tx_handler.rs`). A call that fails keeps what it has changed so far, so the
dispatcher is a computation whose failing runs keep the state.
-/

namespace ZbxChain

inductive StakingTx
  | registerValidator (blsPubkey blsPop : Bytes) (selfStake commissionBps : Nat)
  | delegate (validator : Address) (amount : Nat)
  | undelegate (validator : Address) (amount : Nat)
  | withdraw (validator : Address)
  | claimRewards (validator : Address)
  | claimDelegatorRewards (validator : Address)
  | fileAppeal (evidenceId : H256)
  deriving DecidableEq

def stakingPrecompileAddr : Address := 0x0888

def unbondingPeriodBlocks : Nat := 907200

def isStakingDestination (dest : Option Address) : Bool := dest = some stakingPrecompileAddr

/-! ## The write set -/

structure StakingDelta where
  delegations : Map (Address × Address) Nat
  unbondingPuts : Map (UInt64 × Address × Address) Nat
  unbondingDeletes : Map (UInt64 × Address × Address) Unit

namespace StakingDelta

def new : StakingDelta := ⟨∅, ∅, ∅⟩

variable (d : StakingDelta) (db : ZbxDb)

def isEmpty : Bool :=
  d.delegations.entries.isEmpty && d.unbondingPuts.entries.isEmpty &&
    d.unbondingDeletes.entries.isEmpty

def isDeleted (key : UInt64 × Address × Address) : Bool :=
  (d.unbondingDeletes.lookup key).isSome

def getDelegation (validator delegator : Address) : Nat :=
  (d.delegations.lookup (validator, delegator)).getD (db.getDelegation validator delegator)

def putDelegation (validator delegator : Address) (amount : Nat) : StakingDelta :=
  { d with delegations := d.delegations.insert (validator, delegator) amount }

def getUnbondingEntry (unlock : UInt64) (delegator validator : Address) : Nat :=
  let key := (unlock, delegator, validator)
  if d.isDeleted key then (d.unbondingPuts.lookup key).getD 0
  else (d.unbondingPuts.lookup key).getD (db.getUnbondingEntry unlock delegator validator)

def putUnbondingEntry (unlock : UInt64) (delegator validator : Address)
    (amount : Nat) : StakingDelta :=
  let key := (unlock, delegator, validator)
  { d with
    unbondingDeletes := d.unbondingDeletes.erase key
    unbondingPuts := d.unbondingPuts.insert key amount }

def maturedOnDisk (who : Address) (height : UInt64) : List (UInt64 × Address × Nat) :=
  ((db.iterMaturedUnbondingsFor who height).filter fun e =>
    !d.isDeleted (e.1, who, e.2.1)).map fun e =>
      (e.1, e.2.1, (d.unbondingPuts.lookup (e.1, who, e.2.1)).getD e.2.2)

def iterMaturedUnbondingsFor (who : Address) (height : UInt64) : List (UInt64 × Address × Nat) :=
  let onDisk := d.maturedOnDisk db who height
  onDisk ++ d.unbondingPuts.entries.filterMap fun e =>
    if e.1.2.1 = who ∧ e.1.1 ≤ height ∧ onDisk.all (fun o => (o.1, o.2.1) ≠ (e.1.1, e.1.2.2)) then
      some (e.1.1, e.1.2.2, e.2)
    else none

def deleteUnbondingEntry (unlock : UInt64) (delegator validator : Address) : StakingDelta :=
  let key := (unlock, delegator, validator)
  { d with
    unbondingPuts := d.unbondingPuts.erase key
    unbondingDeletes := d.unbondingDeletes.insert key () }

def deleteUnbondingEntries (delegator : Address)
    (entries : List (UInt64 × Address)) : StakingDelta :=
  entries.foldl (fun d e => d.deleteUnbondingEntry e.1 delegator e.2) d

end StakingDelta

/-! ## The dispatcher -/

class BalanceAccess (B : Type) where
  getBalance : B → Address → Nat
  setBalance : B → Address → Nat → B

structure StakingState (B : Type) where
  vs : ValidatorSet
  delta : StakingDelta
  balances : B

abbrev StakingM (B : Type) := EStateM StakingError (StakingState B)

namespace StakingM

variable {B : Type}

def requireValue (got expected : Nat) : StakingM B Unit :=
  if got ≠ expected then throw (.unexpectedValue got expected) else pure ()

def setValidators (vs : ValidatorSet) : StakingM B Unit := modify fun s => { s with vs := vs }

def setDelta (delta : StakingDelta) : StakingM B Unit := modify fun s => { s with delta := delta }

def updateValidators (op : ValidatorSet → Except StakingError ValidatorSet) :
    StakingM B Unit := do
  match op (← get).vs with
  | .ok vs => setValidators vs
  | .error e => throw e

variable [BalanceAccess B]

/-- Pay from the escrow account; `STAKING_PRECOMPILE` to `recipient`. -/
def payFromEscrow (recipient : Address) (amount : Nat) : StakingM B Unit := do
  let balances := (← get).balances
  let escrow := BalanceAccess.getBalance balances stakingPrecompileAddr
  if escrow < amount then throw (.escrowUnderflow escrow amount)
  else
    let debited := BalanceAccess.setBalance balances stakingPrecompileAddr (escrow - amount)
    let bal := BalanceAccess.getBalance debited recipient
    modify fun s =>
      { s with balances := BalanceAccess.setBalance debited recipient (satAddU128 bal amount) }

end StakingM

open StakingM

variable {B : Type}

def registerValidator (bls : Bls) (sender : Address) (sentValue : Nat) (blsPubkey blsPop : Bytes)
    (selfStake commissionBps : Nat) : StakingM B Nat := do
  requireValue sentValue selfStake
  match bls.pubkeyError blsPubkey, bls.signatureError blsPop with
  | some e, _ => throw (.invalidEvidence ("bls pubkey: " ++ e))
  | none, some e => throw (.invalidEvidence ("bls pop: " ++ e))
  | none, none =>
    updateValidators fun vs =>
      vs.registerWithPop bls sender blsPubkey blsPop selfStake commissionBps
    return 200000

/-- The statuses that the handler itself refuses; `tombstoned` is left to the registry,
after the write set has been changed. -/
def delegate (db : ZbxDb) (sender : Address) (sentValue : Nat) (validator : Address)
    (amount : Nat) : StakingM B Nat := do
  requireValue sentValue amount
  if amount = 0 then throw (.delegationTooSmall 1)
  else
    match (← get).vs.get validator with
    | none => throw (.notFound validator)
    | some v =>
      match v.status with
      | .jailed | .inactive | .unbonding _ => throw .jailed
      | .pending | .active | .tombstoned =>
        let delta := (← get).delta
        let prior := delta.getDelegation db validator sender
        setDelta (delta.putDelegation validator sender (satAddU128 prior amount))
        updateValidators fun vs => vs.delegate validator amount
        return 60000

def undelegate (db : ZbxDb) (sender : Address) (sentValue : Nat) (height : UInt64)
    (validator : Address) (amount : Nat) : StakingM B Nat := do
  requireValue sentValue 0
  match (← get).vs.get validator with
  | none => throw (.notFound validator)
  | some v =>
    let delta := (← get).delta
    let prior := delta.getDelegation db validator sender
    if v.delegatedStake < amount then throw (.insufficientDelegation v.delegatedStake amount)
    else if prior < amount then throw (.insufficientDelegation prior amount)
    else
      let unlock := UInt64.ofNat (min (height.toNat + unbondingPeriodBlocks) (2 ^ 64 - 1))
      let combined := satAddU128 (delta.getUnbondingEntry db unlock sender validator) amount
      setDelta ((delta.putDelegation validator sender (prior - amount)).putUnbondingEntry
        unlock sender validator combined)
      updateValidators fun vs => vs.undelegate validator amount
      return 80000

def withdraw [BalanceAccess B] (db : ZbxDb) (sender : Address) (sentValue : Nat)
    (height : UInt64) (validator : Address) : StakingM B Nat := do
  requireValue sentValue 0
  let delta := (← get).delta
  let matured := (delta.iterMaturedUnbondingsFor db sender height).filter (·.2.1 = validator)
  if matured = [] then throw .nothingToWithdraw
  else
    let total := (matured.map (·.2.2)).sum % 2 ^ 128
    let escrow := BalanceAccess.getBalance (← get).balances stakingPrecompileAddr
    if escrow < total then throw (.escrowUnderflow escrow total)
    else
      setDelta (delta.deleteUnbondingEntries sender (matured.map fun e => (e.1, e.2.1)))
      payFromEscrow sender total
      return 50000

def claimRewards [BalanceAccess B] (sender : Address) (sentValue : Nat) (validator : Address) :
    StakingM B Nat := do
  requireValue sentValue 0
  if sender ≠ validator then throw (.notAValidator sender)
  else
    match (← get).vs.claimRewards validator with
    | .error e => throw e
    | .ok (amount, vs) =>
      setValidators vs
      if 0 < amount then payFromEscrow validator amount else pure ()
      return 40000

def claimDelegatorRewards [BalanceAccess B] (db : ZbxDb) (sender : Address) (sentValue : Nat)
    (validator : Address) : StakingM B Nat := do
  requireValue sentValue 0
  let stake := (← get).delta.getDelegation db validator sender
  if stake = 0 then throw (.noPendingRewards sender)
  else
    let (result, vs) := claimDelegatorReward (← get).vs validator sender stake
    setValidators vs
    match result with
    | .error e => throw e
    | .ok amount =>
      payFromEscrow sender amount
      return 50000

/-- Apply a staking call; the result is the gas it costs. -/
def dispatchStakingTx [BalanceAccess B] (bls : Bls) (call : StakingTx) (sender : Address)
    (sentValue : Nat) (height : UInt64) (db : ZbxDb) : StakingM B Nat :=
  match call with
  | .registerValidator blsPubkey blsPop selfStake commissionBps =>
    registerValidator bls sender sentValue blsPubkey blsPop selfStake commissionBps
  | .delegate validator amount => delegate db sender sentValue validator amount
  | .undelegate validator amount => undelegate db sender sentValue height validator amount
  | .withdraw validator => withdraw db sender sentValue height validator
  | .claimRewards validator => claimRewards sender sentValue validator
  | .claimDelegatorRewards validator => claimDelegatorRewards db sender sentValue validator
  | .fileAppeal _ =>
    throw (.badPayload "FileAppeal must be dispatched via dispatch_file_appeal_tx")

end ZbxChain

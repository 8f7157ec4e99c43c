import ZbxChain.Lib.FiniteMap
import ZbxChain.Staking.Effects

/-!
# Failed staking calls

A staking call that fails leaves the registry, the write set and the balances as they were, but
for three cases in which the failure comes after the first write (`FailsLate`): a delegation to a
tombstoned validator, a reward that the escrow does not cover, and a claim of a delegator that
the escrow does not cover or whose share is zero.
-/

namespace ZbxChain

open BalanceAccess StakingM Validator StakingState

variable {B : Type}

/-! ## The same state -/

structure StakingState.Same (s s' : StakingState B) : Prop where
  validators : ∀ addr, s'.vs.get addr = s.vs.get addr
  activeSet : s'.vs.activeSet = s.vs.activeSet
  currentEpoch : s'.vs.currentEpoch = s.vs.currentEpoch
  delegations : ∀ key, s'.delta.delegations.lookup key = s.delta.delegations.lookup key
  unbondingPuts : ∀ key, s'.delta.unbondingPuts.lookup key = s.delta.unbondingPuts.lookup key
  unbondingDeletes : ∀ key,
    s'.delta.unbondingDeletes.lookup key = s.delta.unbondingDeletes.lookup key
  balances : s'.balances = s.balances

namespace StakingState

variable {s : StakingState B} {validator : Address} {v : Validator}

theorem Same.refl (s : StakingState B) : s.Same s :=
  ⟨fun _ => rfl, rfl, rfl, fun _ => rfl, fun _ => rfl, fun _ => rfl, rfl⟩

theorem same_put_iff (hv : s.vs.get validator = some v) (v' : Validator) :
    s.Same { s with vs := s.vs.put validator v' } ↔ v' = v := by
  constructor
  · intro h
    have hrecord : (s.vs.put validator v').get validator = s.vs.get validator :=
      h.validators validator
    have hput : (s.vs.put validator v').get validator = some v' := AList.lookup_insert _
    rw [hput, hv] at hrecord
    exact Option.some.inj hrecord
  rintro rfl
  refine ⟨fun addr => ?_, rfl, rfl, fun _ => rfl, fun _ => rfl, fun _ => rfl, rfl⟩
  refine (FiniteMap.lookup_insert_eq s.vs.validators validator addr v').trans ?_
  split
  · rename_i heq
    rw [heq, hv]
  · rfl

theorem same_putDelegation_iff (s : StakingState B) (validator delegator : Address) (amount : Nat) :
    s.Same { s with delta := s.delta.putDelegation validator delegator amount } ↔
      s.delta.delegations.lookup (validator, delegator) = some amount := by
  constructor
  · intro h
    rw [← h.delegations (validator, delegator)]
    exact AList.lookup_insert _
  intro h
  refine ⟨fun _ => rfl, rfl, rfl, fun key => ?_, fun _ => rfl, fun _ => rfl, rfl⟩
  refine (FiniteMap.lookup_insert_eq s.delta.delegations _ key amount).trans ?_
  split
  · rename_i heq
    rw [heq, h]
  · rfl

end StakingState

/-! ## Late failures -/

/-- The calls that fail after a write. A delegation that is already at the greatest `u128` in the
write set is written over with the same amount. -/
def FailsLate [BalanceAccess B] (db : ZbxDb) (sender : Address) (sent : Nat) (s : StakingState B) :
    StakingTx → Prop
  | .delegate validator amount => sent = amount ∧ 0 < sent ∧
      (∃ v, s.vs.get validator = some v ∧ v.status = .tombstoned) ∧
      s.delta.delegations.lookup (validator, sender) ≠ some (2 ^ 128 - 1)
  | .claimRewards validator => sent = 0 ∧ sender = validator ∧
      ∃ v, s.vs.get validator = some v ∧
        getBalance s.balances stakingPrecompileAddr < v.pendingRewards
  | .claimDelegatorRewards validator => sent = 0 ∧
      s.delta.getDelegation db validator sender ≠ 0 ∧
      ∃ v, s.vs.get validator = some v ∧ v.delegatorRewardPool ≠ 0 ∧
        (v.delegatorShare (s.delta.getDelegation db validator sender) = 0 ∨
          getBalance s.balances stakingPrecompileAddr <
            v.delegatorShare (s.delta.getDelegation db validator sender))
  | _ => False

section

variable {db : ZbxDb} {sender : Address} {sent : Nat} {s s' : StakingState B} {e : StakingError}

theorem addDelegation_same_iff (hsent : 0 < sent) (validator : Address) :
    s.Same { s with delta := s.delta.addDelegation db validator sender sent } ↔
      s.delta.delegations.lookup (validator, sender) = some (2 ^ 128 - 1) := by
  unfold StakingDelta.addDelegation
  rw [same_putDelegation_iff]
  unfold StakingDelta.getDelegation
  cases hlookup : s.delta.delegations.lookup (validator, sender) with
  | none => simp
  | some prior =>
    simp only [Option.getD_some, Option.some.injEq]
    unfold satAddU128
    omega

theorem same_iff_of_eq {P : Prop} (hstate : s' = s) (hP : ¬ P) : s.Same s' ↔ ¬ P := by
  rw [hstate]
  exact iff_of_true (.refl s) hP

theorem registerValidator_error {bls : Bls} {blsPubkey blsPop : Bytes}
    {selfStake commissionBps : Nat}
    (h : registerValidator bls sender sent blsPubkey blsPop selfStake commissionBps s =
      .error e s') : s' = s := by
  unfold registerValidator at h
  rw [requireValue_bind] at h
  split at h
  swap
  · cases h
    rfl
  cases hkey : bls.pubkeyError blsPubkey with
  | some text =>
    rw [hkey] at h
    cases h
    rfl
  | none =>
    cases hpop : bls.signatureError blsPop with
    | some text =>
      rw [hkey, hpop] at h
      cases h
      rfl
    | none =>
      rw [hkey, hpop] at h
      dsimp only at h
      cases hop : s.vs.registerWithPop bls sender blsPubkey blsPop selfStake commissionBps with
      | error text =>
        rw [updateValidators_bind_error hop] at h
        cases h
        rfl
      | ok vs =>
        rw [updateValidators_bind_ok hop] at h
        cases h

variable {validator : Address} {amount stake : Nat} {height : UInt64} {v : Validator}

theorem undelegate_error (h : undelegate db sender sent height validator amount s = .error e s') :
    s' = s := by
  unfold undelegate at h
  rw [requireValue_bind] at h
  split at h
  swap
  · cases h
    rfl
  rw [get_bind] at h
  cases hv : s.vs.get validator with
  | none =>
    rw [hv] at h
    cases h
    rfl
  | some v =>
    rw [hv] at h
    dsimp only at h
    rw [get_bind] at h
    split at h
    · cases h
      rfl
    rename_i hstake
    split at h
    · cases h
      rfl
    have hop : ValidatorSet.undelegate s.vs validator amount =
        .ok (s.vs.put validator { v with delegatedStake := v.delegatedStake - amount }) := by
      unfold ValidatorSet.undelegate
      rw [hv]
      simp [hstake]
    rw [setDelta_bind, updateValidators_bind_ok hop] at h
    cases h

variable [BalanceAccess B]

theorem delegate_error (h : delegate db sender sent validator amount s = .error e s') :
    s.Same s' ↔ ¬ FailsLate db sender sent s (.delegate validator amount) := by
  by_cases hcase : sent = amount ∧ 0 < sent ∧ ∃ v,
    s.vs.get validator = some v ∧ (v.status.Accepts ∨ v.status = .tombstoned)
  · obtain ⟨rfl, hpos, v, hv, hopen | htomb⟩ := hcase
    · rw [delegate_run_open hpos hv hopen] at h
      cases h
    rw [delegate_run_tombstoned hpos hv htomb] at h
    cases h
    rw [addDelegation_same_iff hpos validator]
    constructor
    · rintro hfull ⟨-, -, -, hnot⟩
      exact hnot hfull
    intro hnot
    by_contra hfull
    exact hnot ⟨rfl, hpos, ⟨v, hv, htomb⟩, hfull⟩
  · obtain ⟨e', hrun⟩ := delegate_refused hcase
    rw [hrun] at h
    cases h
    refine same_iff_of_eq rfl ?_
    rintro ⟨hsent, hpos, ⟨v, hv, htomb⟩, -⟩
    exact hcase ⟨hsent, hpos, v, hv, .inr htomb⟩

theorem withdraw_error (h : withdraw db sender sent height validator s = .error e s') : s' = s := by
  unfold withdraw at h
  rw [requireValue_bind] at h
  split at h
  swap
  · cases h
    rfl
  rw [get_bind] at h
  split at h
  · cases h
    rfl
  rw [get_bind] at h
  split at h
  · cases h
    rfl
  rename_i hpaid
  rw [setDelta_bind, payFromEscrow_bind, if_neg hpaid] at h
  cases h

theorem claimRewards_error (h : claimRewards sender sent validator s = .error e s') :
    s.Same s' ↔ ¬ FailsLate db sender sent s (.claimRewards validator) := by
  unfold claimRewards at h
  rw [requireValue_bind] at h
  split at h
  swap
  · rename_i hsent
    cases h
    exact same_iff_of_eq rfl fun hlate => hsent hlate.1
  rename_i hsent
  split at h
  · rename_i hsender
    cases h
    exact same_iff_of_eq rfl fun hlate => hsender hlate.2.1
  rename_i hsender
  rw [not_not] at hsender
  subst hsender
  rw [get_bind] at h
  unfold ValidatorSet.claimRewards at h
  cases hv : s.vs.get sender with
  | none =>
    rw [hv] at h
    cases h
    refine same_iff_of_eq rfl ?_
    rintro ⟨-, -, v, hv', -⟩
    rw [hv] at hv'
    cases hv'
  | some v =>
    rw [hv] at h
    dsimp only at h
    rw [setValidators_bind] at h
    split at h
    · rw [payFromEscrow_bind] at h
      split at h
      · rename_i hescrow
        cases h
        refine iff_of_false ?_ (not_not.mpr ⟨hsent, rfl, v, hv, hescrow⟩)
        rw [same_put_iff hv]
        intro heq
        have hzero : 0 = v.pendingRewards := congrArg pendingRewards heq
        omega
      · cases h
    · cases h

theorem claimDelegatorShare_eq_iff (hstake : stake ≠ 0) :
    (v.claimDelegatorShare stake).2 = v ↔ v.delegatorRewardPool = 0 := by
  unfold claimDelegatorShare
  constructor
  · intro h
    by_contra hpool
    rw [if_neg hpool] at h
    have hpoolEq : v.delegatorRewardPool - v.delegatorShare stake = v.delegatorRewardPool :=
      congrArg delegatorRewardPool h
    have hdenomEq : v.poolDenominator - stake = v.poolDenominator :=
      congrArg poolDenominator h
    have hdenom : ¬ 0 < v.poolDenominator := by omega
    -- without a denominator the share is the whole pool
    have hshare : v.delegatorShare stake = v.delegatorRewardPool := by
      unfold delegatorShare
      dsimp only
      rw [if_neg hdenom]
      exact Nat.min_self _
    omega
  · intro h
    rw [if_pos h]

theorem shareTaken_same_iff (hsent : sent = 0)
    (hdelegated : s.delta.getDelegation db validator sender = stake) (hstake : stake ≠ 0)
    (hv : s.vs.get validator = some v) (hfail : (v.claimDelegatorShare stake).1 = 0 ∨
      getBalance s.balances stakingPrecompileAddr < (v.claimDelegatorShare stake).1) :
    s.Same { s with vs := s.vs.put validator (v.claimDelegatorShare stake).2 } ↔
      ¬ FailsLate db sender sent s (.claimDelegatorRewards validator) := by
  subst hdelegated
  rw [same_put_iff hv, claimDelegatorShare_eq_iff hstake]
  constructor
  · rintro hpool ⟨-, -, v', hv', hpool', -⟩
    rw [hv] at hv'
    cases hv'
    exact hpool' hpool
  intro hearly
  by_contra hpool
  refine hearly ⟨hsent, hstake, v, hv, hpool, ?_⟩
  unfold claimDelegatorShare at hfail
  rw [if_neg hpool] at hfail
  exact hfail

theorem claimDelegatorRewards_run (hdelegated : s.delta.getDelegation db validator sender = stake)
    (hstake : stake ≠ 0) (hv : s.vs.get validator = some v) :
    claimDelegatorRewards db sender 0 validator s = if (v.claimDelegatorShare stake).1 = 0 then
        .error (.noPendingRewards sender)
          { s with vs := s.vs.put validator (v.claimDelegatorShare stake).2 }
      else if getBalance s.balances stakingPrecompileAddr < (v.claimDelegatorShare stake).1 then
        .error (.escrowUnderflow (getBalance s.balances stakingPrecompileAddr)
          (v.claimDelegatorShare stake).1)
          { s with vs := s.vs.put validator (v.claimDelegatorShare stake).2 }
      else
        .ok 50000
          { s with
            vs := s.vs.put validator (v.claimDelegatorShare stake).2
            balances := payout s.balances sender (v.claimDelegatorShare stake).1 } := by
  subst hdelegated
  unfold claimDelegatorRewards
  rw [requireValue_bind, if_pos rfl, get_bind]
  rw [if_neg hstake, get_bind]
  unfold claimDelegatorReward
  rw [if_neg hstake, hv]
  dsimp only
  rw [setValidators_bind]
  split
  · rfl
  dsimp only
  rw [payFromEscrow_bind]
  rfl

theorem claimDelegatorRewards_refused
    (h : ¬ (sent = 0 ∧ s.delta.getDelegation db validator sender ≠ 0 ∧
      ∃ v, s.vs.get validator = some v)) :
    ∃ e, claimDelegatorRewards db sender sent validator s = .error e s := by
  unfold claimDelegatorRewards
  rw [requireValue_bind]
  by_cases hsent : sent = 0
  · rw [if_pos hsent, get_bind]
    by_cases hstake : s.delta.getDelegation db validator sender = 0
    · rw [if_pos hstake]
      exact ⟨_, rfl⟩
    rw [if_neg hstake, get_bind]
    unfold claimDelegatorReward
    rw [if_neg hstake]
    cases hv : s.vs.get validator with
    | none => exact ⟨_, rfl⟩
    | some v => exact absurd ⟨hsent, hstake, v, hv⟩ h
  · rw [if_neg hsent]
    exact ⟨_, rfl⟩

theorem claimDelegatorRewards_error
    (h : claimDelegatorRewards db sender sent validator s = .error e s') :
    s.Same s' ↔ ¬ FailsLate db sender sent s (.claimDelegatorRewards validator) := by
  by_cases hchecks : sent = 0 ∧ s.delta.getDelegation db validator sender ≠ 0 ∧
      ∃ v, s.vs.get validator = some v
  · obtain ⟨rfl, hstake, v, hv⟩ := hchecks
    rw [claimDelegatorRewards_run rfl hstake hv] at h
    split at h
    · rename_i hzero
      cases h
      exact shareTaken_same_iff rfl rfl hstake hv (.inl hzero)
    split at h
    · rename_i hescrow
      cases h
      exact shareTaken_same_iff rfl rfl hstake hv (.inr hescrow)
    · cases h
  · obtain ⟨e', hrefused⟩ := claimDelegatorRewards_refused hchecks
    rw [hrefused] at h
    cases h
    refine same_iff_of_eq rfl ?_
    rintro ⟨hsent, hstake, v, hv, -⟩
    exact hchecks ⟨hsent, hstake, v, hv⟩

/-- Every call that fails, from every state. -/
theorem failed_call_unchanged_iff (bls : Bls) (call : StakingTx) (sender : Address) (sent : Nat)
    (height : UInt64) (db : ZbxDb) (s s' : StakingState B) (e : StakingError)
    (h : dispatchStakingTx bls call sender sent height db s = .error e s') :
    s.Same s' ↔ ¬ FailsLate db sender sent s call := by
  cases call with
  | registerValidator blsPubkey blsPop selfStake commissionBps =>
    exact same_iff_of_eq (registerValidator_error h) not_false
  | delegate validator amount => exact delegate_error h
  | undelegate validator amount => exact same_iff_of_eq (undelegate_error h) not_false
  | withdraw validator => exact same_iff_of_eq (withdraw_error h) not_false
  | claimRewards validator => exact claimRewards_error h
  | claimDelegatorRewards validator => exact claimDelegatorRewards_error h
  | fileAppeal evidenceId =>
    cases h
    exact same_iff_of_eq rfl not_false

end

/-- The balances of the source's own tests. -/
instance : BalanceAccess (Map Address Nat) where
  getBalance balances addr := (balances.lookup addr).getD 0
  setBalance balances addr wei := balances.insert addr wei

/-- A validator `0xb2` with rewards, whose delegator pool of 1 is for a stake of 4, while the
escrow is empty. `0xa1` has delegated 1 to it. -/
def emptyEscrow (status : ValidatorStatus) : StakingState (Map Address Nat) where
  vs := ValidatorSet.new.put 0xb2
    ⟨0xb2, [], ValidatorSet.minSelfStake, 4, 0, status, 0, 7, 1, 4, 0⟩
  delta := StakingDelta.new.putDelegation 0xb2 0xa1 1
  balances := ∅

def noBls : Bls := ⟨fun _ => none, fun _ => none, fun _ _ _ => false⟩

/-- More is asked back than was delegated. -/
theorem undelegation_refused :
    dispatchStakingTx noBls (.undelegate 0xb2 2) 0xa1 0 1 .empty (emptyEscrow .active) =
      .error (.insufficientDelegation 1 2) (emptyEscrow .active) ∧
    (emptyEscrow .active).Same (emptyEscrow .active) :=
  ⟨rfl, (failed_call_unchanged_iff noBls (.undelegate 0xb2 2) 0xa1 0 1 .empty (emptyEscrow .active)
    (emptyEscrow .active) _ rfl).mpr not_false⟩

/-- The three calls that fail late: a delegation to a tombstoned validator is recorded, the
validator's rewards are gone, and the denominator of the pool has gone down. -/
theorem late_failures :
    (∃ s', dispatchStakingTx noBls (.delegate 0xb2 5) 0xa1 5 1 .empty (emptyEscrow .tombstoned) =
        .error .jailed s' ∧ (emptyEscrow .tombstoned).delta.getDelegation .empty 0xb2 0xa1 = 1 ∧
      s'.delta.getDelegation .empty 0xb2 0xa1 = 6) ∧
    (∃ s', dispatchStakingTx noBls (.claimRewards 0xb2) 0xb2 0 1 .empty (emptyEscrow .active) =
        .error (.escrowUnderflow 0 7) s' ∧
      ((emptyEscrow .active).vs.get 0xb2).map pendingRewards = some 7 ∧
      (s'.vs.get 0xb2).map pendingRewards = some 0) ∧
    (∃ s', dispatchStakingTx noBls (.claimDelegatorRewards 0xb2) 0xa1 0 1 .empty
        (emptyEscrow .active) = .error (.noPendingRewards 0xa1) s' ∧
      ((emptyEscrow .active).vs.get 0xb2).map poolDenominator = some 4 ∧
      (s'.vs.get 0xb2).map poolDenominator = some 3) :=
  ⟨⟨_, rfl, rfl, rfl⟩, ⟨_, rfl, rfl, rfl⟩, ⟨_, rfl, rfl, rfl⟩⟩

end ZbxChain

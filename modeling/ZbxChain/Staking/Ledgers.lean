import ZbxChain.Lib.Except
import ZbxChain.Staking.TxHandler

/-!
# Staking calls on two ledgers

A staking call looks at the balances of the escrow account and of its sender only. On two
ledgers that agree there it ends in the same way, and they still agree
(`dispatchStakingTx_simulates`).
-/

namespace ZbxChain

open BalanceAccess StakingM

variable {B B' : Type}

structure SameStaking (R : B → B' → Prop) (s : StakingState B) (t : StakingState B') : Prop where
  vs : s.vs = t.vs
  delta : s.delta = t.delta
  balances : R s.balances t.balances

variable {R : B → B' → Prop}

theorem simulates_requireValue (got expected : Nat) :
    Simulates (SameStaking R) (requireValue got expected) (requireValue got expected) := by
  unfold requireValue
  split
  · exact simulates_throw _
  · exact simulates_pure ()

theorem simulates_setValidators (vs : ValidatorSet) :
    Simulates (SameStaking R) (setValidators vs) (setValidators vs) :=
  simulates_modify fun _ _ h => ⟨rfl, h.delta, h.balances⟩

theorem simulates_setDelta (delta : StakingDelta) :
    Simulates (SameStaking R) (setDelta delta) (setDelta delta) :=
  simulates_modify fun _ _ h => ⟨h.vs, rfl, h.balances⟩

theorem simulates_updateValidators (op : ValidatorSet → Except StakingError ValidatorSet) :
    Simulates (SameStaking R) (updateValidators op) (updateValidators op) := by
  refine simulates_get_bind fun s t h => ?_
  rw [h.vs]
  split
  · exact simulates_setValidators _
  · exact simulates_throw _

theorem simulates_registerValidator (bls : Bls) (sender : Address) (sentValue : Nat)
    (blsPubkey blsPop : Bytes) (selfStake commissionBps : Nat) : Simulates (SameStaking R)
      (registerValidator bls sender sentValue blsPubkey blsPop selfStake commissionBps)
      (registerValidator bls sender sentValue blsPubkey blsPop selfStake commissionBps) := by
  refine (simulates_requireValue _ _).bind fun _ => ?_
  split
  · exact simulates_throw _
  · exact simulates_throw _
  · exact (simulates_updateValidators _).bind fun _ => simulates_pure _

theorem simulates_delegate (db : ZbxDb) (sender : Address) (sentValue : Nat)
    (validator : Address) (amount : Nat) :
    Simulates (SameStaking R) (delegate db sender sentValue validator amount)
      (delegate db sender sentValue validator amount) := by
  refine (simulates_requireValue _ _).bind fun _ => ?_
  split
  · exact simulates_throw _
  refine simulates_get_bind fun s t h => ?_
  rw [h.vs]
  split
  · exact simulates_throw _
  -- the three statuses that are accepted have the same body
  have accepted := simulates_get_bind (R := SameStaking R)
    (f := fun s : StakingState B => do
      let prior := s.delta.getDelegation db validator sender
      setDelta (s.delta.putDelegation validator sender (satAddU128 prior amount))
      updateValidators fun vs => vs.delegate validator amount
      return 60000)
    (g := fun s : StakingState B' => do
      let prior := s.delta.getDelegation db validator sender
      setDelta (s.delta.putDelegation validator sender (satAddU128 prior amount))
      updateValidators fun vs => vs.delegate validator amount
      return 60000) fun s' t' h' => by
        rw [h'.delta]
        exact (simulates_setDelta _).bind fun _ =>
          (simulates_updateValidators _).bind fun _ => simulates_pure _
  split
  · exact simulates_throw _
  · exact simulates_throw _
  · exact simulates_throw _
  · exact accepted
  · exact accepted
  · exact accepted

theorem simulates_undelegate (db : ZbxDb) (sender : Address) (sentValue : Nat) (height : UInt64)
    (validator : Address) (amount : Nat) :
    Simulates (SameStaking R) (undelegate db sender sentValue height validator amount)
      (undelegate db sender sentValue height validator amount) := by
  refine (simulates_requireValue _ _).bind fun _ => simulates_get_bind fun s t h => ?_
  rw [h.vs]
  split
  · exact simulates_throw _
  refine simulates_get_bind fun s' t' h' => ?_
  rw [h'.delta]
  dsimp only
  split_ifs
  · exact simulates_throw _
  · exact simulates_throw _
  · exact (simulates_setDelta _).bind fun _ =>
      (simulates_updateValidators _).bind fun _ => simulates_pure _

/-! ## Payments -/

variable [BalanceAccess B] [BalanceAccess B']

/-- The balances of the accounts in `T` are the same and stay the same under writes. -/
structure SameLedger (T : Address → Prop) (R : B → B' → Prop) : Prop where
  get : ∀ {b b' addr}, R b b' → T addr → getBalance b addr = getBalance b' addr
  set : ∀ {b b' addr}, R b b' → T addr → ∀ wei, R (setBalance b addr wei) (setBalance b' addr wei)

variable {T : Address → Prop} (hR : SameLedger T R) (hescrow : T stakingPrecompileAddr)
include hR hescrow

theorem simulates_payFromEscrow {recipient : Address} (hrecipient : T recipient) (amount : Nat) :
    Simulates (SameStaking R) (payFromEscrow recipient amount) (payFromEscrow recipient amount) := by
  refine simulates_get_bind fun s t h => ?_
  have hpaid := hR.set h.balances hescrow
    (getBalance t.balances stakingPrecompileAddr - amount)
  dsimp only
  rw [hR.get h.balances hescrow, hR.get hpaid hrecipient]
  split
  · exact simulates_throw _
  · exact simulates_modify fun s' t' h' => ⟨h'.vs, h'.delta, hR.set hpaid hrecipient _⟩

variable {sender : Address}

theorem simulates_withdraw (hsender : T sender) (db : ZbxDb) (sentValue : Nat)
    (height : UInt64) (validator : Address) :
    Simulates (SameStaking R) (withdraw db sender sentValue height validator)
      (withdraw db sender sentValue height validator) := by
  refine (simulates_requireValue _ _).bind fun _ => simulates_get_bind fun s t h => ?_
  rw [h.delta]
  dsimp only
  split
  · exact simulates_throw _
  refine simulates_get_bind fun s' t' h' => ?_
  rw [hR.get h'.balances hescrow]
  split
  · exact simulates_throw _
  · exact (simulates_setDelta _).bind fun _ =>
      (simulates_payFromEscrow hR hescrow hsender _).bind fun _ => simulates_pure _

theorem simulates_claimRewards (hsender : T sender) (sentValue : Nat) (validator : Address) :
    Simulates (SameStaking R) (claimRewards sender sentValue validator)
      (claimRewards sender sentValue validator) := by
  refine (simulates_requireValue _ _).bind fun _ => ?_
  split
  · exact simulates_throw _
  rename_i heq
  rw [not_not] at heq
  subst heq
  refine simulates_get_bind fun s t h => ?_
  rw [h.vs]
  split
  · exact simulates_throw _
  refine (simulates_setValidators _).bind fun _ => ?_
  split
  · exact (simulates_payFromEscrow hR hescrow hsender _).bind fun _ => simulates_pure _
  · exact (simulates_pure _).bind fun _ => simulates_pure _

theorem simulates_claimDelegatorRewards (hsender : T sender) (db : ZbxDb)
    (sentValue : Nat) (validator : Address) :
    Simulates (SameStaking R) (claimDelegatorRewards db sender sentValue validator)
      (claimDelegatorRewards db sender sentValue validator) := by
  refine (simulates_requireValue _ _).bind fun _ => simulates_get_bind fun s t h => ?_
  rw [h.delta]
  dsimp only
  split
  · exact simulates_throw _
  refine simulates_get_bind fun s' t' h' => ?_
  rw [h'.vs]
  refine (simulates_setValidators _).bind fun _ => ?_
  split
  · exact simulates_throw _
  · exact (simulates_payFromEscrow hR hescrow hsender _).bind fun _ => simulates_pure _

theorem dispatchStakingTx_simulates (hsender : T sender) (bls : Bls)
    (call : StakingTx) (sentValue : Nat) (height : UInt64) (db : ZbxDb) :
    Simulates (SameStaking R) (dispatchStakingTx bls call sender sentValue height db)
      (dispatchStakingTx bls call sender sentValue height db) := by
  cases call with
  | registerValidator blsPubkey blsPop selfStake commissionBps =>
    exact simulates_registerValidator _ _ _ _ _ _ _
  | delegate validator amount => exact simulates_delegate _ _ _ _ _
  | undelegate validator amount => exact simulates_undelegate _ _ _ _ _ _
  | withdraw validator => exact simulates_withdraw hR hescrow hsender _ _ _ _
  | claimRewards validator => exact simulates_claimRewards hR hescrow hsender _ _
  | claimDelegatorRewards validator =>
    exact simulates_claimDelegatorRewards hR hescrow hsender _ _ _
  | fileAppeal evidenceId => exact simulates_throw _

end ZbxChain

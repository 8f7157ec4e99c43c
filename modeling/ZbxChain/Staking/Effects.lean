import ZbxChain.Lib.Except
import ZbxChain.Staking.TxHandler

/-!
# Payments of staking calls

A staking call, successful or not, leaves the balances as they are or pays its sender one
amount that the escrow covers (`dispatchStakingTx_pays`).
-/

namespace ZbxChain

open BalanceAccess StakingM

variable {B α β : Type}

/-! ## Steps that leave the balances alone -/

def KeepsBalances (x : StakingM B α) : Prop :=
  Extends (fun s s' : StakingState B => s'.balances = s.balances) x

theorem keeps_pure (a : α) : KeepsBalances (pure a : StakingM B α) := fun _ => rfl

theorem keeps_throw (e : StakingError) : KeepsBalances (throw e : StakingM B α) := fun _ => rfl

theorem keeps_get : KeepsBalances (get : StakingM B (StakingState B)) := fun _ => rfl

theorem keeps_setValidators (vs : ValidatorSet) :
    KeepsBalances (setValidators vs : StakingM B Unit) := fun _ => rfl

theorem keeps_setDelta (delta : StakingDelta) :
    KeepsBalances (setDelta delta : StakingM B Unit) := fun _ => rfl

theorem KeepsBalances.bind {x : StakingM B α} {k : α → StakingM B β} (hx : KeepsBalances x)
    (hk : ∀ a, KeepsBalances (k a)) : KeepsBalances (x >>= k) :=
  Extends.bind (fun _ _ _ hab hbc => hbc.trans hab) hx hk

theorem keeps_requireValue (got expected : Nat) :
    KeepsBalances (requireValue got expected : StakingM B Unit) := by
  unfold requireValue
  split
  · exact keeps_throw _
  · exact keeps_pure ()

theorem keeps_updateValidators (op : ValidatorSet → Except StakingError ValidatorSet) :
    KeepsBalances (updateValidators op : StakingM B Unit) := by
  refine keeps_get.bind fun s => ?_
  split
  · exact keeps_setValidators _
  · exact keeps_throw _

variable (bls : Bls) (sender : Address) (sentValue : Nat)

theorem keeps_registerValidator (blsPubkey blsPop : Bytes) (selfStake commissionBps : Nat) :
    KeepsBalances (registerValidator bls sender sentValue blsPubkey blsPop selfStake
      commissionBps : StakingM B Nat) := by
  refine (keeps_requireValue _ _).bind fun _ => ?_
  split
  · exact keeps_throw _
  · exact keeps_throw _
  · exact (keeps_updateValidators _).bind fun _ => keeps_pure _

variable (db : ZbxDb)

theorem keeps_delegate (sender : Address) (sentValue : Nat) (validator : Address) (amount : Nat) :
    KeepsBalances (delegate db sender sentValue validator amount : StakingM B Nat) := by
  have accepted : KeepsBalances (do
      let delta := (← get).delta
      let prior := delta.getDelegation db validator sender
      setDelta (delta.putDelegation validator sender (satAddU128 prior amount))
      updateValidators fun vs => vs.delegate validator amount
      return 60000 : StakingM B Nat) :=
    keeps_get.bind fun _ => (keeps_setDelta _).bind fun _ =>
      (keeps_updateValidators _).bind fun _ => keeps_pure _
  refine (keeps_requireValue _ _).bind fun _ => ?_
  split
  · exact keeps_throw _
  refine keeps_get.bind fun s => ?_
  split
  · exact keeps_throw _
  split
  · exact keeps_throw _
  · exact keeps_throw _
  · exact keeps_throw _
  · exact accepted
  · exact accepted
  · exact accepted

theorem keeps_undelegate (sender : Address) (sentValue : Nat) (height : UInt64)
    (validator : Address) (amount : Nat) :
    KeepsBalances (undelegate db sender sentValue height validator amount : StakingM B Nat) := by
  refine (keeps_requireValue _ _).bind fun _ => keeps_get.bind fun s => ?_
  split
  · exact keeps_throw _
  refine keeps_get.bind fun s' => ?_
  dsimp only
  split_ifs
  · exact keeps_throw _
  · exact keeps_throw _
  · exact (keeps_setDelta _).bind fun _ => (keeps_updateValidators _).bind fun _ => keeps_pure _

/-! ## Payments -/

variable [BalanceAccess B]

/-- Move an amount from the escrow account; the recipient is read after the debit. -/
def payout (balances : B) (recipient : Address) (amount : Nat) : B :=
  let debited := setBalance balances stakingPrecompileAddr
    (getBalance balances stakingPrecompileAddr - amount)
  setBalance debited recipient (satAddU128 (getBalance debited recipient) amount)

def AtMostPaid (recipient : Address) (balances balances' : B) : Prop :=
  balances' = balances ∨ ∃ amount ≤ getBalance balances stakingPrecompileAddr,
    balances' = payout balances recipient amount

def Pays (recipient : Address) (x : StakingM B α) : Prop :=
  ∀ s, AtMostPaid recipient s.balances (finalState (x s)).balances

section

variable {recipient : Address} {x : StakingM B α} {k : α → StakingM B β}

theorem KeepsBalances.pays (h : KeepsBalances x) : Pays recipient x := fun s => .inl (h s)

theorem KeepsBalances.bind_pays (hx : KeepsBalances x) (hk : ∀ a, Pays recipient (k a)) :
    Pays recipient (x >>= k) := by
  intro s
  have hs := hx s
  cases h : x s with
  | ok a s' =>
    rw [h] at hs
    have hs : s'.balances = s.balances := hs
    rw [estate_bind_ok h, ← hs]
    exact hk a s'
  | error e s' =>
    rw [h] at hs
    rw [estate_bind_error h]
    exact .inl hs

theorem Pays.bind_keeps (hx : Pays recipient x) (hk : ∀ a, KeepsBalances (k a)) :
    Pays recipient (x >>= k) := by
  intro s
  have hs := hx s
  cases h : x s with
  | ok a s' =>
    rw [h] at hs
    have hk : (finalState (k a s')).balances = s'.balances := hk a s'
    rw [estate_bind_ok h, hk]
    exact hs
  | error e s' =>
    rw [h] at hs
    rw [estate_bind_error h]
    exact hs

end

theorem pays_payFromEscrow (recipient : Address) (amount : Nat) :
    Pays recipient (payFromEscrow recipient amount : StakingM B Unit) := by
  intro s
  by_cases h : getBalance s.balances stakingPrecompileAddr < amount
  · left
    have hrun : payFromEscrow recipient amount s =
        .error (.escrowUnderflow (getBalance s.balances stakingPrecompileAddr) amount) s := by
      refine (estate_bind_ok (estate_get s) _).trans ?_
      rw [if_pos h]
      rfl
    rw [hrun]
    rfl
  · right
    refine ⟨amount, Nat.le_of_not_lt h, ?_⟩
    have hrun : payFromEscrow recipient amount s =
        .ok () { s with balances := payout s.balances recipient amount } := by
      refine (estate_bind_ok (estate_get s) _).trans ?_
      rw [if_neg h]
      rfl
    rw [hrun]
    rfl

theorem pays_withdraw (sender : Address) (sentValue : Nat) (height : UInt64) (validator : Address) :
    Pays sender (withdraw db sender sentValue height validator : StakingM B Nat) := by
  refine (keeps_requireValue _ _).bind_pays fun _ => keeps_get.bind_pays fun s => ?_
  dsimp only
  split
  · exact (keeps_throw _).pays
  refine keeps_get.bind_pays fun s' => ?_
  split
  · exact (keeps_throw _).pays
  · exact (keeps_setDelta _).bind_pays fun _ =>
      (pays_payFromEscrow _ _).bind_keeps fun _ => keeps_pure _

theorem pays_claimRewards (validator : Address) :
    Pays sender (claimRewards sender sentValue validator : StakingM B Nat) := by
  refine (keeps_requireValue _ _).bind_pays fun _ => ?_
  split
  · exact (keeps_throw _).pays
  rename_i hsender
  rw [not_not] at hsender
  subst hsender
  refine keeps_get.bind_pays fun s => ?_
  split
  · exact (keeps_throw _).pays
  refine (keeps_setValidators _).bind_pays fun _ => ?_
  split
  · exact (pays_payFromEscrow _ _).bind_keeps fun _ => keeps_pure _
  · exact ((keeps_pure _).bind fun _ => keeps_pure _).pays

theorem pays_claimDelegatorRewards (sender : Address) (sentValue : Nat) (validator : Address) :
    Pays sender (claimDelegatorRewards db sender sentValue validator : StakingM B Nat) := by
  refine (keeps_requireValue _ _).bind_pays fun _ => keeps_get.bind_pays fun s => ?_
  dsimp only
  split
  · exact (keeps_throw _).pays
  refine keeps_get.bind_pays fun s' => (keeps_setValidators _).bind_pays fun _ => ?_
  split
  · exact (keeps_throw _).pays
  · exact (pays_payFromEscrow _ _).bind_keeps fun _ => keeps_pure _

theorem dispatchStakingTx_pays (call : StakingTx) (sender : Address) (sentValue : Nat)
    (height : UInt64) (db : ZbxDb) :
    Pays sender (dispatchStakingTx bls call sender sentValue height db : StakingM B Nat) := by
  cases call with
  | registerValidator blsPubkey blsPop selfStake commissionBps =>
    exact (keeps_registerValidator _ _ _ _ _ _ _).pays
  | delegate validator amount => exact (keeps_delegate _ _ _ _ _).pays
  | undelegate validator amount => exact (keeps_undelegate _ _ _ _ _ _).pays
  | withdraw validator => exact pays_withdraw _ _ _ _ _
  | claimRewards validator => exact pays_claimRewards _ _ _
  | claimDelegatorRewards validator => exact pays_claimDelegatorRewards _ _ _ _
  | fileAppeal evidenceId => exact (keeps_throw _).pays

end ZbxChain

/-!
## What a staking call can do

`dispatchStakingTx_effect` lists the outcomes of a staking call, with the checks that each has
passed.
-/

namespace ZbxChain

open BalanceAccess StakingM

variable {B α β : Type}

/-! ## The steps of a handler -/

theorem requireValue_bind (got expected : Nat) (k : Unit → StakingM B β) (s : StakingState B) :
    (requireValue got expected >>= k) s =
      if got = expected then k () s else .error (.unexpectedValue got expected) s := by
  unfold requireValue
  by_cases h : got = expected
  · rw [if_neg (not_not.mpr h), if_pos h]
    rfl
  · rw [if_pos h, if_neg h]
    rfl

theorem get_bind (k : StakingState B → StakingM B β) (s : StakingState B) :
    (get >>= k) s = k s s := rfl

theorem setDelta_bind (delta : StakingDelta) (k : Unit → StakingM B β) (s : StakingState B) :
    (setDelta delta >>= k) s = k () { s with delta := delta } := rfl

theorem setValidators_bind (vs : ValidatorSet) (k : Unit → StakingM B β) (s : StakingState B) :
    (setValidators vs >>= k) s = k () { s with vs := vs } := rfl

variable {s : StakingState B} {op : ValidatorSet → Except StakingError ValidatorSet}

theorem updateValidators_bind_ok {vs : ValidatorSet} (h : op s.vs = .ok vs)
    (k : Unit → StakingM B β) : (updateValidators op >>= k) s = k () { s with vs := vs } := by
  have hrun : updateValidators op s = .ok () { s with vs := vs } := by
    unfold updateValidators
    rw [get_bind, h]
    rfl
  rw [estate_bind_ok hrun]

theorem updateValidators_bind_error {e : StakingError} (h : op s.vs = .error e)
    (k : Unit → StakingM B β) : (updateValidators op >>= k) s = .error e s := by
  have hrun : updateValidators op s = .error e s := by
    unfold updateValidators
    rw [get_bind, h]
    rfl
  rw [estate_bind_error hrun]

theorem payFromEscrow_bind [BalanceAccess B] (recipient : Address) (amount : Nat)
    (k : Unit → StakingM B β) (s : StakingState B) : (payFromEscrow recipient amount >>= k) s =
      if getBalance s.balances stakingPrecompileAddr < amount then
        .error (.escrowUnderflow (getBalance s.balances stakingPrecompileAddr) amount) s
      else k () { s with balances := payout s.balances recipient amount } := by
  by_cases h : getBalance s.balances stakingPrecompileAddr < amount
  · have hrun : payFromEscrow recipient amount s =
        .error (.escrowUnderflow (getBalance s.balances stakingPrecompileAddr) amount) s := by
      unfold payFromEscrow
      rw [get_bind, if_pos h]
      rfl
    rw [estate_bind_error hrun, if_pos h]
  have hrun : payFromEscrow recipient amount s =
      .ok () { s with balances := payout s.balances recipient amount } := by
    unfold payFromEscrow
    rw [get_bind, if_neg h]
    rfl
  rw [estate_bind_ok hrun, if_neg h]

/-! ## Outcomes -/

def ValidatorStatus.Accepts (status : ValidatorStatus) : Prop :=
  status = .pending ∨ status = .active

structure FreshValidator (sender : Address) (stake : Nat) (v : Validator) : Prop where
  address : v.address = sender
  selfStake : v.selfStake = stake
  delegatedStake : v.delegatedStake = 0
  pendingRewards : v.pendingRewards = 0
  delegatorRewardPool : v.delegatorRewardPool = 0
  status : v.status = .pending

variable (d : StakingDelta) (db : ZbxDb)

def StakingDelta.addDelegation (validator delegator : Address) (amount : Nat) : StakingDelta :=
  d.putDelegation validator delegator (satAddU128 (d.getDelegation db validator delegator) amount)

def StakingDelta.maturedAt (who : Address) (height : UInt64)
    (validator : Address) : List (UInt64 × Address × Nat) :=
  (d.iterMaturedUnbondingsFor db who height).filter (·.2.1 = validator)

def StakingDelta.maturedTotal (who : Address) (height : UInt64) (validator : Address) : Nat :=
  ((d.maturedAt db who height validator).map (·.2.2)).sum % 2 ^ 128

def StakingState.withDelegation (s : StakingState B) (db : ZbxDb) (sender validator : Address)
    (v : Validator) (amount : Nat) : StakingState B :=
  { s with
    vs := s.vs.put validator { v with delegatedStake := satAddU128 v.delegatedStake amount }
    delta := s.delta.addDelegation db validator sender amount }

def unlockHeight (height : UInt64) : UInt64 :=
  UInt64.ofNat (min (height.toNat + unbondingPeriodBlocks) (2 ^ 64 - 1))

def StakingDelta.takeDelegation (validator delegator : Address)
    (unlock : UInt64) (amount : Nat) : StakingDelta :=
  (d.putDelegation validator delegator
    (d.getDelegation db validator delegator - amount)).putUnbondingEntry unlock delegator validator
    (satAddU128 (d.getUnbondingEntry db unlock delegator validator) amount)

/-- How a call of `sender` with value `sent` ends: success or not, and the state. -/
inductive StakingEffect [BalanceAccess B] (db : ZbxDb) (sender : Address) (sent : Nat)
    (height : UInt64) (call : StakingTx) (s : StakingState B) : Bool → StakingState B → Prop
  | refused : StakingEffect db sender sent height call s false s
  | registered (v : Validator) (hnew : s.vs.get sender = none) (hv : FreshValidator sender sent v) :
      StakingEffect db sender sent height call s true { s with vs := s.vs.put sender v }
  | delegated (validator : Address) (v : Validator) (hcall : call = .delegate validator sent)
      (hv : s.vs.get validator = some v) (hsent : 0 < sent) (hstatus : v.status.Accepts) :
      StakingEffect db sender sent height call s true (s.withDelegation db sender validator v sent)
  | recordedOnly (validator : Address) (v : Validator) (hcall : call = .delegate validator sent)
      (hv : s.vs.get validator = some v) (hsent : 0 < sent) (hstatus : v.status = .tombstoned) :
      StakingEffect db sender sent height call s false
        { s with delta := s.delta.addDelegation db validator sender sent }
  | undelegated (validator : Address) (v : Validator) (hv : s.vs.get validator = some v)
      (amount : Nat) (hsent : sent = 0) (hstake : amount ≤ v.delegatedStake)
      (hprior : amount ≤ s.delta.getDelegation db validator sender) :
      StakingEffect db sender sent height call s true
        { s with
          vs := s.vs.put validator { v with delegatedStake := v.delegatedStake - amount }
          delta := s.delta.takeDelegation db validator sender (unlockHeight height) amount }
  | withdrawn (validator : Address) (hsent : sent = 0)
      (hpaid : s.delta.maturedTotal db sender height validator ≤
        getBalance s.balances stakingPrecompileAddr) :
      StakingEffect db sender sent height call s true
        { s with
          delta := s.delta.deleteUnbondingEntries sender
            ((s.delta.maturedAt db sender height validator).map fun e => (e.1, e.2.1))
          balances := payout s.balances sender
            (s.delta.maturedTotal db sender height validator) }
  | rewarded (v : Validator) (hv : s.vs.get sender = some v) (hsent : sent = 0)
      (hpaid : v.pendingRewards ≤ getBalance s.balances stakingPrecompileAddr) :
      StakingEffect db sender sent height call s true
        { s with
          vs := s.vs.put sender { v with pendingRewards := 0 }
          balances := payout s.balances sender v.pendingRewards }
  | unrewarded (v : Validator) (hv : s.vs.get sender = some v) (success : Bool) (hsent : sent = 0) :
      StakingEffect db sender sent height call s success
        { s with vs := s.vs.put sender { v with pendingRewards := 0 } }
  | shared (validator : Address) (v : Validator) (hv : s.vs.get validator = some v)
      (hsent : sent = 0) (stake : Nat)
      (hpaid : (v.claimDelegatorShare stake).1 ≤ getBalance s.balances stakingPrecompileAddr) :
      StakingEffect db sender sent height call s true
        { s with
          vs := s.vs.put validator (v.claimDelegatorShare stake).2
          balances := payout s.balances sender (v.claimDelegatorShare stake).1 }
  | unshared (validator : Address) (v : Validator) (hv : s.vs.get validator = some v)
      (hsent : sent = 0) (stake : Nat) :
      StakingEffect db sender sent height call s false
        { s with vs := s.vs.put validator (v.claimDelegatorShare stake).2 }

/-- What the result of a computation satisfies: success or not, and the final state. -/
def Ends (P : Bool → StakingState B → Prop) : EStateM.Result StakingError (StakingState B) α → Prop
  | .ok _ s => P true s
  | .error _ s => P false s

theorem Ends.final {P : Bool → StakingState B → Prop}
    {result : EStateM.Result StakingError (StakingState B) α} (h : Ends P result) :
    ∃ success, P success (finalState result) := by
  cases result with
  | ok _ s => exact ⟨true, h⟩
  | error _ s => exact ⟨false, h⟩

variable {db : ZbxDb} {sender validator : Address} {sent : Nat} {s : StakingState B} {v : Validator}

section

variable (hsent : 0 < sent) (hv : s.vs.get validator = some v)

include hsent hv

theorem delegate_run (hstatus : v.status.Accepts ∨ v.status = .tombstoned) :
    delegate db sender sent validator sent s = (do
      updateValidators fun vs => vs.delegate validator sent
      return 60000) { s with delta := s.delta.addDelegation db validator sender sent } := by
  unfold delegate
  rw [requireValue_bind, if_pos rfl, if_neg (Nat.pos_iff_ne_zero.mp hsent), get_bind, hv]
  rcases hstatus with (h | h) | h <;> simp only [h] <;> rfl

theorem delegate_run_open (hstatus : v.status.Accepts) : delegate db sender sent validator sent s =
      .ok 60000 (s.withDelegation db sender validator v sent) := by
  have hop : ValidatorSet.delegate s.vs validator sent =
      .ok (s.vs.put validator { v with delegatedStake := satAddU128 v.delegatedStake sent }) := by
    unfold ValidatorSet.delegate
    rw [hv]
    rcases hstatus with h | h <;> simp [h]
  rw [delegate_run hsent hv (.inl hstatus), updateValidators_bind_ok hop]
  rfl

theorem delegate_run_tombstoned (hstatus : v.status = .tombstoned) :
    delegate db sender sent validator sent s =
      .error .jailed { s with delta := s.delta.addDelegation db validator sender sent } := by
  have hop : ValidatorSet.delegate s.vs validator sent = .error .jailed := by
    unfold ValidatorSet.delegate
    rw [hv]
    simp [hstatus]
  rw [delegate_run hsent hv (.inr hstatus), updateValidators_bind_error hop]

end

theorem delegate_refused {amount : Nat} (h : ¬ (sent = amount ∧ 0 < sent ∧ ∃ v,
    s.vs.get validator = some v ∧ (v.status.Accepts ∨ v.status = .tombstoned))) :
    ∃ e, delegate db sender sent validator amount s = .error e s := by
  unfold delegate
  rw [requireValue_bind]
  split
  next heq =>
    subst heq
    split
    · exact ⟨_, rfl⟩
    next hpos =>
      rw [get_bind]
      cases hv : s.vs.get validator with
      | none => exact ⟨_, rfl⟩
      | some v =>
        have hstatus := fun hstatus => h ⟨rfl, Nat.pos_of_ne_zero hpos, v, hv, hstatus⟩
        cases hcase : v.status with
        | jailed | inactive | unbonding =>
          simp only [hcase]
          exact ⟨_, rfl⟩
        | pending | active | tombstoned => simp [ValidatorStatus.Accepts, hcase] at hstatus
  · exact ⟨_, rfl⟩

variable [BalanceAccess B] {height : UInt64} {call : StakingTx}

theorem registerValidator_effect (bls : Bls) (blsPubkey blsPop : Bytes)
    (selfStake commissionBps : Nat) (s : StakingState B) :
    Ends (StakingEffect db sender sent height call s)
      (registerValidator bls sender sent blsPubkey blsPop selfStake commissionBps s) := by
  unfold registerValidator
  rw [requireValue_bind]
  split
  swap
  · exact .refused
  rename_i hsent
  cases bls.pubkeyError blsPubkey with
  | some e => exact .refused
  | none =>
    cases bls.signatureError blsPop with
    | some e => exact .refused
    | none =>
      dsimp only
      cases hop : s.vs.registerWithPop bls sender blsPubkey blsPop selfStake commissionBps with
      | error e =>
        rw [updateValidators_bind_error hop]
        exact .refused
      | ok vs =>
        rw [updateValidators_bind_ok hop]
        unfold ValidatorSet.registerWithPop ValidatorSet.register at hop
        split_ifs at hop with hpop hnew hmin
        cases hop
        rw [Option.not_isSome_iff_eq_none] at hnew
        exact .registered _ hnew ⟨rfl, hsent.symm, rfl, rfl, rfl, rfl⟩

theorem delegate_effect (validator : Address) (amount : Nat) (s : StakingState B) :
    Ends (StakingEffect db sender sent height (.delegate validator amount) s)
      (delegate db sender sent validator amount s) := by
  by_cases hcase : sent = amount ∧ 0 < sent ∧ ∃ v,
    s.vs.get validator = some v ∧ (v.status.Accepts ∨ v.status = .tombstoned)
  · obtain ⟨rfl, hpos, v, hv, hopen | htomb⟩ := hcase
    · rw [delegate_run_open hpos hv hopen]
      exact .delegated validator v rfl hv hpos hopen
    · rw [delegate_run_tombstoned hpos hv htomb]
      exact .recordedOnly validator v rfl hv hpos htomb
  obtain ⟨e, hrun⟩ := delegate_refused hcase
  rw [hrun]
  exact .refused

theorem undelegate_effect (validator : Address) (amount : Nat) (s : StakingState B) :
    Ends (StakingEffect db sender sent height call s)
      (undelegate db sender sent height validator amount s) := by
  unfold undelegate
  rw [requireValue_bind]
  split
  swap
  · exact .refused
  rename_i hsent
  rw [get_bind]
  cases hv : s.vs.get validator with
  | none => exact .refused
  | some v =>
    dsimp only
    rw [get_bind]
    split
    · exact .refused
    rename_i hstake
    split
    · exact .refused
    rename_i hprior
    have hop : ValidatorSet.undelegate s.vs validator amount =
        .ok (s.vs.put validator { v with delegatedStake := v.delegatedStake - amount }) := by
      unfold ValidatorSet.undelegate
      rw [hv]
      simp [hstake]
    rw [setDelta_bind, updateValidators_bind_ok hop]
    exact .undelegated validator v hv amount hsent (Nat.le_of_not_lt hstake)
      (Nat.le_of_not_lt hprior)

variable (validator s) in
theorem withdraw_effect : Ends (StakingEffect db sender sent height call s)
      (withdraw db sender sent height validator s) := by
  unfold withdraw
  rw [requireValue_bind]
  split
  swap
  · exact .refused
  rename_i hsent
  rw [get_bind]
  split
  · exact .refused
  rw [get_bind]
  split
  · exact .refused
  rename_i hpaid
  rw [setDelta_bind, payFromEscrow_bind, if_neg hpaid]
  exact .withdrawn validator hsent (Nat.le_of_not_lt hpaid)

variable (validator s) in
theorem claimRewards_effect :
    Ends (StakingEffect db sender sent height call s) (claimRewards sender sent validator s) := by
  unfold claimRewards
  rw [requireValue_bind]
  split
  swap
  · exact .refused
  rename_i hsent
  split
  · exact .refused
  rename_i hsender
  rw [not_not] at hsender
  subst hsender
  rw [get_bind]
  cases hv : s.vs.get sender with
  | none =>
    have hop : s.vs.claimRewards sender = .error (.notAValidator sender) := by
      unfold ValidatorSet.claimRewards
      rw [hv]
    rw [hop]
    exact .refused
  | some v =>
    have hop : s.vs.claimRewards sender =
        .ok (v.pendingRewards, s.vs.put sender { v with pendingRewards := 0 }) := by
      unfold ValidatorSet.claimRewards
      rw [hv]
    rw [hop]
    dsimp only
    rw [setValidators_bind]
    split
    · rw [payFromEscrow_bind]
      split
      · exact .unrewarded v hv false hsent
      · rename_i hpaid
        exact .rewarded v hv hsent (Nat.le_of_not_lt hpaid)
    · exact .unrewarded v hv true hsent

variable (validator s) in
theorem claimDelegatorRewards_effect : Ends (StakingEffect db sender sent height call s)
      (claimDelegatorRewards db sender sent validator s) := by
  unfold claimDelegatorRewards
  rw [requireValue_bind]
  split
  swap
  · exact .refused
  rename_i hsent
  rw [get_bind]
  split
  · exact .refused
  rename_i hstake
  rw [get_bind]
  unfold claimDelegatorReward
  rw [if_neg hstake]
  cases hv : s.vs.get validator with
  | none => exact .refused
  | some v =>
    dsimp only
    rw [setValidators_bind]
    split
    · exact .unshared validator v hv hsent _
    show Ends _ ((payFromEscrow sender _ >>= fun _ => pure 50000) _)
    rw [payFromEscrow_bind]
    split
    · exact .unshared validator v hv hsent _
    · rename_i hpaid
      exact .shared validator v hv hsent _ (Nat.le_of_not_lt hpaid)

theorem dispatchStakingTx_effect (bls : Bls) (call : StakingTx) (s : StakingState B) :
    Ends (StakingEffect db sender sent height call s)
      (dispatchStakingTx bls call sender sent height db s) := by
  cases call with
  | registerValidator blsPubkey blsPop selfStake commissionBps =>
    exact registerValidator_effect bls blsPubkey blsPop selfStake commissionBps s
  | delegate validator amount => exact delegate_effect validator amount s
  | undelegate validator amount => exact undelegate_effect validator amount s
  | withdraw validator => exact withdraw_effect validator s
  | claimRewards validator => exact claimRewards_effect validator s
  | claimDelegatorRewards validator => exact claimDelegatorRewards_effect validator s
  | fileAppeal evidenceId => exact .refused

end ZbxChain

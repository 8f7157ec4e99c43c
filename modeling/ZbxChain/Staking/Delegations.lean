import ZbxChain.Lib.FiniteMap
import ZbxChain.Staking.Effects

/-!
# The two ledgers of delegated stake

A delegation is kept twice: in the `delegated_stake` of its validator, and as an amount of its
delegator in the write set over the database.
-/

namespace ZbxChain

open FiniteMap BalanceAccess ValidatorSet

/-! ## Recorded delegations -/

namespace StakingDelta

def delegationsOver (d : StakingDelta) (db : ZbxDb) : Map (Address × Address) Nat :=
  insertAll db.delegations d.delegations.entries

def toValidator (validator : Address) (key : Address × Address) (amount : Nat) : Nat :=
  if key.1 = validator then amount else 0

def recorded (d : StakingDelta) (db : ZbxDb) (validator : Address) : Nat :=
  totalBy (toValidator validator) (d.delegationsOver db)

variable (d : StakingDelta) (db : ZbxDb)

theorem lookup_delegationsOver (validator delegator : Address) :
    ((d.delegationsOver db).lookup (validator, delegator)).getD 0 =
      d.getDelegation db validator delegator := by
  unfold delegationsOver getDelegation ZbxDb.getDelegation
  rw [lookup_insertAll_entries]
  cases d.delegations.lookup (validator, delegator) <;> rfl

theorem weightBy_toValidator (m : Map (Address × Address) Nat)
    (validator other delegator : Address) : weightBy (toValidator other) m (validator, delegator) =
      if validator = other then (m.lookup (validator, delegator)).getD 0 else 0 := by
  unfold weightBy toValidator
  cases m.lookup (validator, delegator) with
  | none => simp
  | some amount => rfl

theorem recorded_putDelegation (validator delegator : Address) (amount : Nat) (other : Address) :
    (d.putDelegation validator delegator amount).recorded db other +
        (if validator = other then d.getDelegation db validator delegator else 0) =
      d.recorded db other + if validator = other then amount else 0 := by
  have hinsert := totalBy_insert (toValidator other) (d.delegationsOver db) (validator, delegator)
    amount
  rw [weightBy_toValidator, lookup_delegationsOver] at hinsert
  refine Eq.trans (congrArg (· + _) (totalBy_congr _ fun key => ?_)) hinsert
  unfold delegationsOver putDelegation
  rw [lookup_insertAll_entries, lookup_insert_eq, lookup_insert_eq, lookup_insertAll_entries]
  split <;> rfl

variable {other validator : Address}

theorem recorded_putDelegation_of_ne (h : validator ≠ other) (delegator : Address) (amount : Nat) :
    (d.putDelegation validator delegator amount).recorded db other = d.recorded db other := by
  have hput := d.recorded_putDelegation db validator delegator amount other
  rw [if_neg h, if_neg h] at hput
  exact hput

theorem getDelegation_le_recorded (validator delegator : Address) :
    d.getDelegation db validator delegator ≤ d.recorded db validator := by
  have hle := weightBy_le (toValidator validator) (d.delegationsOver db) (validator, delegator)
  rw [weightBy_toValidator, lookup_delegationsOver, if_pos rfl] at hle
  exact hle

theorem recorded_addDelegation (validator delegator : Address) (amount : Nat) :
    (d.addDelegation db validator delegator amount).recorded db validator +
        d.getDelegation db validator delegator =
      d.recorded db validator + satAddU128 (d.getDelegation db validator delegator) amount := by
  have hput := d.recorded_putDelegation db validator delegator
    (satAddU128 (d.getDelegation db validator delegator) amount) validator
  rw [if_pos rfl, if_pos rfl] at hput
  exact hput

theorem recorded_addDelegation_of_ne (h : validator ≠ other) (delegator : Address) (amount : Nat) :
    (d.addDelegation db validator delegator amount).recorded db other = d.recorded db other :=
  d.recorded_putDelegation_of_ne db h delegator _

theorem recorded_takeDelegation (validator delegator : Address)
    (unlock : UInt64) {amount : Nat} (h : amount ≤ d.getDelegation db validator delegator) :
    (d.takeDelegation db validator delegator unlock amount).recorded db validator + amount =
      d.recorded db validator := by
  have hput := d.recorded_putDelegation db validator delegator
    (d.getDelegation db validator delegator - amount) validator
  rw [if_pos rfl, if_pos rfl] at hput
  have hsame : (d.takeDelegation db validator delegator unlock amount).recorded db validator =
      (d.putDelegation validator delegator
        (d.getDelegation db validator delegator - amount)).recorded db validator := rfl
  omega

theorem recorded_takeDelegation_of_ne (h : validator ≠ other) (delegator : Address)
    (unlock : UInt64) (amount : Nat) :
    (d.takeDelegation db validator delegator unlock amount).recorded db other =
      d.recorded db other :=
  d.recorded_putDelegation_of_ne db h delegator _

theorem recorded_deleteUnbondingEntries (delegator : Address)
    (entries : List (UInt64 × Address)) (validator : Address) :
    (d.deleteUnbondingEntries delegator entries).recorded db validator =
      d.recorded db validator := by
  induction entries generalizing d with
  | nil => rfl
  | cons e rest ih => exact ih _

theorem getD_writeDelegations (entries : List ((_ : Address × Address) × Nat))
    {m m' : Map (Address × Address) Nat}
    (h : ∀ key, (m.lookup key).getD 0 = (m'.lookup key).getD 0) (key : Address × Address) :
    ((entries.foldl ZbxDb.writeDelegation m).lookup key).getD 0 =
      ((insertAll m' entries).lookup key).getD 0 := by
  induction entries generalizing m m' with
  | nil => exact h key
  | cons e rest ih =>
    refine ih fun other => ?_
    unfold ZbxDb.writeDelegation
    rw [lookup_insert_eq]
    split
    · rename_i hzero
      rw [lookup_erase_eq, hzero]
      split
      · rfl
      · exact h other
    rw [lookup_insert_eq]
    split
    · rfl
    · exact h other

theorem recorded_commit (puts : List ((_ : UInt64 × Address × Address) × Nat))
    (deletes : List ((_ : UInt64 × Address × Address) × Unit)) (validator : Address) :
    StakingDelta.new.recorded (db.applyStakingDelta d.delegations.entries puts deletes) validator =
      d.recorded db validator := by
  refine totalBy_eq_of_weightBy_eq _ fun key => ?_
  obtain ⟨owner, delegator⟩ := key
  rw [weightBy_toValidator, weightBy_toValidator]
  refine congrArg (fun amount => if owner = validator then amount else 0) ?_
  exact getD_writeDelegations d.delegations.entries (fun _ => rfl) (owner, delegator)

end StakingDelta

/-! ## Both ledgers -/

theorem ValidatorSet.get_put (vs : ValidatorSet) (addr other : Address) (v : Validator) :
    (vs.put addr v).get other = if other = addr then some v else vs.get other :=
  lookup_insert_eq _ _ _ _

variable {B : Type}

def DelegationsBalanced (db : ZbxDb) (s : StakingState B) : Prop :=
  ∀ addr v, s.vs.get addr = some v → v.delegatedStake = s.delta.recorded db addr

/-- Stakes are `u128`, and only validators have delegations. -/
structure DelegationsSane (db : ZbxDb) (s : StakingState B) : Prop where
  bounded : ∀ addr v, s.vs.get addr = some v → v.delegatedStake < 2 ^ 128
  unregistered : ∀ addr, s.vs.get addr = none → s.delta.recorded db addr = 0

/-- A delegation that both ledgers take alike: the stake does not overflow, unless the
sender is the only delegator, and the validator is not tombstoned, unless the amount of the
sender cannot grow. -/
def DelegationFits (db : ZbxDb) (sender : Address) (sent : Nat) (call : StakingTx)
    (s : StakingState B) : Prop :=
  ∀ validator v, call = .delegate validator sent → 0 < sent → s.vs.get validator = some v →
    (v.status.Accepts → v.delegatedStake + sent < 2 ^ 128 ∨
      s.delta.getDelegation db validator sender = v.delegatedStake) ∧
    (v.status = .tombstoned → s.delta.getDelegation db validator sender = 2 ^ 128 - 1)

variable {db : ZbxDb} {s : StakingState B} {sender addr validator : Address} {sent : Nat}
  {delta : StakingDelta} {v : Validator}

theorem DelegationsBalanced.put (h : DelegationsBalanced db s)
    (hv : v.delegatedStake = s.delta.recorded db addr) (b : B) :
    DelegationsBalanced db { s with vs := s.vs.put addr v, balances := b } := by
  intro other v' hv'
  rw [get_put] at hv'
  split at hv'
  · rename_i heq
    cases hv'
    rw [heq]
    exact hv
  · exact h other v' hv'

theorem DelegationsSane.put (h : DelegationsSane db s) (hv : v.delegatedStake < 2 ^ 128) (b : B) :
    DelegationsSane db { s with vs := s.vs.put addr v, balances := b } := by
  refine ⟨fun other v' hv' => ?_, fun other hnone => ?_⟩
  · rw [get_put] at hv'
    split at hv'
    · cases hv'
      exact hv
    · exact h.bounded other v' hv'
  rw [get_put] at hnone
  split at hnone
  · cases hnone
  · exact h.unregistered other hnone

theorem DelegationsSane.record (h : DelegationsSane db s) (hv : s.vs.get addr = some v)
    (hdelta : ∀ other, addr ≠ other → delta.recorded db other = s.delta.recorded db other) :
    DelegationsSane db { s with delta := delta } := by
  refine ⟨h.bounded, fun other hnone => ?_⟩
  have hne : addr ≠ other := by
    rintro rfl
    cases hv.symm.trans hnone
  exact (hdelta other hne).trans (h.unregistered other hnone)

theorem DelegationsBalanced.both (h : DelegationsBalanced db s) (addr : Address)
    (hdelta : ∀ other, addr ≠ other → delta.recorded db other = s.delta.recorded db other) :
    DelegationsBalanced db { s with vs := s.vs.put addr v, delta := delta } ↔
      v.delegatedStake = delta.recorded db addr := by
  refine ⟨fun hboth => hboth addr v ?_, fun hv other v' hv' => ?_⟩
  · rw [get_put, if_pos rfl]
  rw [get_put] at hv'
  split at hv'
  · rename_i heq
    cases hv'
    rw [heq]
    exact hv
  · rename_i hne
    exact (h other v' hv').trans (hdelta other (Ne.symm hne)).symm

theorem balanced_withDelegation_iff (hv : s.vs.get validator = some v)
    (h : DelegationsBalanced db s) (hsane : DelegationsSane db s) :
    DelegationsBalanced db (s.withDelegation db sender validator v sent) ↔
      v.delegatedStake + sent < 2 ^ 128 ∨
        s.delta.getDelegation db validator sender = v.delegatedStake := by
  have hboth := h.both validator
    (v := { v with delegatedStake := satAddU128 v.delegatedStake sent })
    (fun other hne => s.delta.recorded_addDelegation_of_ne db hne sender sent)
  refine hboth.trans ?_
  have hadd := s.delta.recorded_addDelegation db validator sender sent
  have hle := s.delta.getDelegation_le_recorded db validator sender
  have hbound := hsane.bounded validator v hv
  rw [← h validator v hv] at hadd hle
  unfold satAddU128 at hadd ⊢
  dsimp only
  omega

theorem balanced_recordedOnly_iff (hsent : 0 < sent) (hv : s.vs.get validator = some v)
    (h : DelegationsBalanced db s) (hsane : DelegationsSane db s) :
    DelegationsBalanced db { s with delta := s.delta.addDelegation db validator sender sent } ↔
      s.delta.getDelegation db validator sender = 2 ^ 128 - 1 := by
  have hadd := s.delta.recorded_addDelegation db validator sender sent
  have hle := s.delta.getDelegation_le_recorded db validator sender
  have hbound := hsane.bounded validator v hv
  rw [← h validator v hv] at hadd hle
  constructor
  · intro hbalanced
    have hsame := hbalanced validator v hv
    dsimp only at hsame
    unfold satAddU128 at hadd
    omega
  intro hprior other v' hv'
  by_cases hother : validator = other
  · subst hother
    cases hv.symm.trans hv'
    unfold satAddU128 at hadd
    dsimp only
    omega
  · exact (h other v' hv').trans (s.delta.recorded_addDelegation_of_ne db hother sender sent).symm

theorem delegatedStake_claimDelegatorShare (v : Validator) (stake : Nat) :
    (v.claimDelegatorShare stake).2.delegatedStake = v.delegatedStake := by
  unfold Validator.claimDelegatorShare
  split <;> rfl

variable [BalanceAccess B] {height : UInt64} {call : StakingTx} {success : Bool}
  {s' : StakingState B}

section

variable (h : StakingEffect db sender sent height call s success s') (hsane : DelegationsSane db s)

include h hsane

theorem StakingEffect.sane : DelegationsSane db s' := by
  cases h with
  | refused => exact hsane
  | registered v hnew hv =>
    refine hsane.put ?_ s.balances
    rw [hv.delegatedStake]
    exact Nat.two_pow_pos 128
  | delegated validator v _ hv _ _ =>
    have hrecord := hsane.record hv
      fun other hne => s.delta.recorded_addDelegation_of_ne db hne sender sent
    exact hrecord.put (satAddU128_lt _ _) s.balances
  | recordedOnly validator v _ hv _ _ =>
    exact hsane.record hv fun other hne => s.delta.recorded_addDelegation_of_ne db hne sender sent
  | undelegated validator v hv amount _ hstake hprior =>
    have hrecord := hsane.record hv fun other hne =>
      s.delta.recorded_takeDelegation_of_ne db hne sender (unlockHeight height) amount
    exact hrecord.put (Nat.lt_of_le_of_lt (Nat.sub_le _ _) (hsane.bounded _ v hv)) s.balances
  | withdrawn validator _ _ =>
    exact ⟨hsane.bounded, fun addr hnone =>
      (s.delta.recorded_deleteUnbondingEntries db sender _ addr).trans (hsane.unregistered addr hnone)⟩
  | rewarded v hv _ _ => exact hsane.put (v := { v with pendingRewards := 0 }) (hsane.bounded _ v hv) _
  | unrewarded v hv _ _ =>
    exact hsane.put (v := { v with pendingRewards := 0 }) (hsane.bounded _ v hv) s.balances
  | shared validator v hv _ stake _ =>
    refine hsane.put ?_ _
    rw [delegatedStake_claimDelegatorShare]
    exact hsane.bounded _ v hv
  | unshared validator v hv _ stake =>
    refine hsane.put ?_ s.balances
    rw [delegatedStake_claimDelegatorShare]
    exact hsane.bounded _ v hv

theorem StakingEffect.balanced (hbalanced : DelegationsBalanced db s)
    (hfits : DelegationFits db sender sent call s) : DelegationsBalanced db s' := by
  cases h with
  | refused => exact hbalanced
  | registered v hnew hv =>
    refine hbalanced.put ?_ s.balances
    rw [hv.delegatedStake, hsane.unregistered sender hnew]
  | delegated validator v hcall hv hsent hstatus =>
    exact (balanced_withDelegation_iff hv hbalanced hsane).mpr
      ((hfits validator v hcall hsent hv).1 hstatus)
  | recordedOnly validator v hcall hv hsent hstatus =>
    exact (balanced_recordedOnly_iff hsent hv hbalanced hsane).mpr
      ((hfits validator v hcall hsent hv).2 hstatus)
  | undelegated validator v hv amount _ hstake hprior =>
    refine (hbalanced.both validator fun other hne =>
      s.delta.recorded_takeDelegation_of_ne db hne sender (unlockHeight height) amount).mpr ?_
    have htake := s.delta.recorded_takeDelegation db validator sender (unlockHeight height) hprior
    have hstakes := hbalanced validator v hv
    dsimp only
    omega
  | withdrawn validator _ _ =>
    intro addr v hv
    exact (hbalanced addr v hv).trans (s.delta.recorded_deleteUnbondingEntries db sender _ addr).symm
  | rewarded v hv _ _ =>
    exact hbalanced.put (v := { v with pendingRewards := 0 }) (hbalanced sender v hv) _
  | unrewarded v hv _ _ =>
    exact hbalanced.put (v := { v with pendingRewards := 0 }) (hbalanced sender v hv) s.balances
  | shared validator v hv _ stake _ =>
    refine hbalanced.put ?_ _
    rw [delegatedStake_claimDelegatorShare]
    exact hbalanced validator v hv
  | unshared validator v hv _ stake =>
    refine hbalanced.put ?_ s.balances
    rw [delegatedStake_claimDelegatorShare]
    exact hbalanced validator v hv

end

theorem dispatchStakingTx_balanced_iff (bls : Bls) (hsane : DelegationsSane db s)
    (hbalanced : DelegationsBalanced db s) :
    DelegationsBalanced db (finalState (dispatchStakingTx bls call sender sent height db s)) ↔
      DelegationFits db sender sent call s := by
  constructor
  · rintro hafter validator v rfl hsent hv
    have hrun : dispatchStakingTx bls (.delegate validator sent) sender sent height db s =
      delegate db sender sent validator sent s := rfl
    rw [hrun] at hafter
    refine ⟨fun hstatus => ?_, fun hstatus => ?_⟩
    · rw [delegate_run_open hsent hv hstatus] at hafter
      exact (balanced_withDelegation_iff hv hbalanced hsane).mp hafter
    · rw [delegate_run_tombstoned hsent hv hstatus] at hafter
      exact (balanced_recordedOnly_iff hsent hv hbalanced hsane).mp hafter
  · intro hfits
    have hends : Ends (StakingEffect db sender sent height call s) _ :=
      dispatchStakingTx_effect bls call s
    obtain ⟨success, heffect⟩ := hends.final
    exact heffect.balanced hsane hbalanced hfits

end ZbxChain

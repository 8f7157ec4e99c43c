import ZbxChain.Lib.Runs
import ZbxChain.Staking.Delegations
import ZbxChain.Staking.FailedCalls

/-!
# Claims between two distributions

A distribution leaves a validator with a pool for its delegators and the stake that the pool is
for. A claim takes its share out of both.
-/

namespace ZbxChain

open BalanceAccess ValidatorSet Validator

/-! ## Shares -/

/-- The pool and its denominator are still in the proportion of the distribution. -/
structure Validator.InProportion (pool denominator : Nat) (v : Validator) : Prop where
  ratio : v.delegatorRewardPool * denominator = pool * v.poolDenominator
  pool_le : v.delegatorRewardPool ≤ pool

/-- The part of a stake in a pool is a whole number, and the product fits. -/
structure WholePart (pool denominator stake : Nat) : Prop where
  fits : pool * stake < 2 ^ 128
  whole : denominator ∣ pool * stake

namespace Validator.InProportion

variable {pool denominator stake : Nat} {v : Validator}

variable (h : v.InProportion pool denominator) (hdenom : 0 < denominator)
  (hpart : WholePart pool denominator stake)

include h hdenom hpart

theorem share_eq (hleft : v.delegatorRewardPool ≠ 0) :
    v.delegatorShare stake = min v.delegatorRewardPool (pool * stake / denominator) := by
  obtain ⟨part, hpart'⟩ := hpart.whole
  have hdiv : pool * stake / denominator = part := by
    rw [hpart']
    exact Nat.mul_div_cancel_left part hdenom
  have hden : 0 < v.poolDenominator := by
    refine Nat.pos_of_ne_zero fun hzero => ?_
    have hratio := h.ratio
    rw [hzero, Nat.mul_zero] at hratio
    exact (Nat.mul_eq_zero.mp hratio).elim hleft (Nat.pos_iff_ne_zero.mp hdenom)
  -- the ratio carries the part from the whole pool over to what is left of it
  have hleft' : v.delegatorRewardPool * stake = v.poolDenominator * part := by
    refine Nat.eq_of_mul_eq_mul_left hdenom ?_
    calc denominator * (v.delegatorRewardPool * stake)
        = v.delegatorRewardPool * denominator * stake := by ring
      _ = pool * v.poolDenominator * stake := by rw [h.ratio]
      _ = v.poolDenominator * (pool * stake) := by ring
      _ = denominator * (v.poolDenominator * part) := by rw [hpart']; ring
  have hfits : v.delegatorRewardPool * stake < 2 ^ 128 :=
    Nat.lt_of_le_of_lt (Nat.mul_le_mul_right stake h.pool_le) hpart.fits
  unfold delegatorShare
  dsimp only
  rw [if_pos hden, if_pos hfits, hleft', Nat.mul_div_cancel_left part hden, hdiv, Nat.min_comm]

theorem claim :
    (v.claimDelegatorShare stake).1 = min v.delegatorRewardPool (pool * stake / denominator) ∧
      (v.claimDelegatorShare stake).2.delegatorRewardPool =
        v.delegatorRewardPool - (v.claimDelegatorShare stake).1 ∧
      (v.claimDelegatorShare stake).2.InProportion pool denominator := by
  unfold claimDelegatorShare
  by_cases hleft : v.delegatorRewardPool = 0
  · rw [if_pos hleft, hleft]
    exact ⟨(Nat.zero_min _).symm, rfl, h⟩
  rw [if_neg hleft]
  have hshare := h.share_eq hdenom hpart hleft
  refine ⟨hshare, rfl, ?_, Nat.le_trans (Nat.sub_le _ _) h.pool_le⟩
  obtain ⟨part, hpart'⟩ := hpart.whole
  have hdiv : pool * stake / denominator = part := by
    rw [hpart']
    exact Nat.mul_div_cancel_left part hdenom
  rw [hdiv] at hshare
  dsimp only
  rw [hshare]
  -- what is left of pool and denominator, with the stake above or below the denominator
  have hratio := h.ratio
  by_cases hle : stake ≤ v.poolDenominator
  · have hpartLe : part ≤ v.delegatorRewardPool := by
      refine Nat.le_of_mul_le_mul_left ?_ hdenom
      rw [← hpart', Nat.mul_comm denominator, hratio]
      exact Nat.mul_le_mul_left pool hle
    rw [Nat.min_eq_right hpartLe, Nat.sub_mul, Nat.mul_sub, hratio, hpart', Nat.mul_comm part]
  have hpartGe : v.delegatorRewardPool ≤ part := by
    refine Nat.le_of_mul_le_mul_left ?_ hdenom
    rw [← hpart', Nat.mul_comm denominator, hratio]
    exact Nat.mul_le_mul_left pool (Nat.le_of_not_le hle)
  rw [Nat.min_eq_left hpartGe, Nat.sub_self, Nat.sub_eq_zero_of_le (Nat.le_of_not_le hle),
    Nat.zero_mul, Nat.mul_zero]

end Validator.InProportion

/-! ## Histories of claims -/

structure DelegatorClaim where
  sender : Address
  validator : Address
  sent : Nat
  height : UInt64

/-- The state, and what each delegator has been paid out of the pool of one validator. -/
structure ClaimHistory (B : Type) where
  state : StakingState B
  received : Address → Nat

variable {B : Type}

def poolOf (s : StakingState B) (validator : Address) : Nat :=
  ((s.vs.get validator).map delegatorRewardPool).getD 0

/-- A claim that is accepted pays its sender what leaves the pool; one that fails pays nothing,
whatever it does to the state. -/
def ClaimHistory.record (validator : Address) (h : ClaimHistory B) (sender : Address) :
    EStateM.Result StakingError (StakingState B) Nat → ClaimHistory B
  | .ok _ s' => ⟨s', fun d => if d = sender then
      h.received d + (poolOf h.state validator - poolOf s' validator) else h.received d⟩
  | .error _ s' => ⟨s', h.received⟩

def ClaimHistory.step [BalanceAccess B] (bls : Bls) (db : ZbxDb) (validator : Address)
    (h : ClaimHistory B) (c : DelegatorClaim) : ClaimHistory B :=
  h.record validator c.sender (dispatchStakingTx bls (.claimDelegatorRewards c.validator) c.sender
    c.sent c.height db h.state)

def ClaimHistory.Within (pool denominator : Nat) (stake : Address → Nat)
    (h : ClaimHistory B) : Prop :=
  ∀ d, h.received d ≤ pool * stake d / denominator

def ClaimHistory.First [BalanceAccess B] (validator : Address) (pool denominator : Nat)
    (stake : Address → Nat) (h : ClaimHistory B) (c : DelegatorClaim) : Prop :=
  c.validator = validator → c.sent = 0 → poolOf h.state validator ≠ 0 →
    min (poolOf h.state validator) (pool * stake c.sender / denominator) ≤
      getBalance h.state.balances stakingPrecompileAddr → h.received c.sender = 0

section

variable {B : Type} [BalanceAccess B] {bls : Bls} {db : ZbxDb} {validator : Address}
  {pool denominator : Nat} {stake : Address → Nat} {h : ClaimHistory B} {c : DelegatorClaim}

/-- The proportion is kept, and who has been paid has been paid in full while there is something
left. -/
structure ClaimHistory.Fair (db : ZbxDb) (validator : Address) (pool denominator : Nat)
    (stake : Address → Nat) (h : ClaimHistory B) : Prop where
  record : ∃ v, h.state.vs.get validator = some v ∧ v.InProportion pool denominator
  delegated : ∀ d, h.state.delta.getDelegation db validator d = stake d
  paid : poolOf h.state validator ≠ 0 → ∀ d, h.received d ≠ 0 →
    pool * stake d / denominator ≤ h.received d

/-- What a claim on the state `s` can end in: a refusal, a share that leaves the validator and is
not paid, or a payment. -/
inductive ClaimOutcome (db : ZbxDb) (s : StakingState B) (c : DelegatorClaim) :
    EStateM.Result StakingError (StakingState B) Nat → Prop
  | refused (e : StakingError)
      (h : ¬ (c.sent = 0 ∧ s.delta.getDelegation db c.validator c.sender ≠ 0 ∧
        ∃ v, s.vs.get c.validator = some v)) : ClaimOutcome db s c (.error e s)
  | lost (e : StakingError) (v : Validator) (hv : s.vs.get c.validator = some v)
      (hsent : c.sent = 0) (stake : Nat)
      (hstake : s.delta.getDelegation db c.validator c.sender = stake) (hpos : stake ≠ 0)
      (hfail : (v.claimDelegatorShare stake).1 = 0 ∨
        getBalance s.balances stakingPrecompileAddr < (v.claimDelegatorShare stake).1) :
      ClaimOutcome db s c
        (.error e { s with vs := s.vs.put c.validator (v.claimDelegatorShare stake).2 })
  | paid (gas : Nat) (v : Validator) (hv : s.vs.get c.validator = some v) (hsent : c.sent = 0)
      (stake : Nat) (hstake : s.delta.getDelegation db c.validator c.sender = stake)
      (hpos : stake ≠ 0) (hshare : (v.claimDelegatorShare stake).1 ≠ 0)
      (hescrow : (v.claimDelegatorShare stake).1 ≤ getBalance s.balances stakingPrecompileAddr) :
      ClaimOutcome db s c (.ok gas
        { s with
          vs := s.vs.put c.validator (v.claimDelegatorShare stake).2
          balances := payout s.balances c.sender (v.claimDelegatorShare stake).1 })

theorem claim_outcome (bls : Bls) (db : ZbxDb) (s : StakingState B) (c : DelegatorClaim) :
    ClaimOutcome db s c (dispatchStakingTx bls (.claimDelegatorRewards c.validator) c.sender c.sent
      c.height db s) := by
  show ClaimOutcome db s c (claimDelegatorRewards db c.sender c.sent c.validator s)
  by_cases hchecks : c.sent = 0 ∧ s.delta.getDelegation db c.validator c.sender ≠ 0 ∧
      ∃ v, s.vs.get c.validator = some v
  · obtain ⟨hsent, hpos, v, hv⟩ := hchecks
    rw [hsent, claimDelegatorRewards_run rfl hpos hv]
    split
    · rename_i hzero
      exact .lost _ v hv hsent _ rfl hpos (.inl hzero)
    rename_i hshare
    split
    · rename_i hescrow
      exact .lost _ v hv hsent _ rfl hpos (.inr hescrow)
    · rename_i hescrow
      exact .paid _ v hv hsent _ rfl hpos hshare (Nat.le_of_not_lt hescrow)
  · obtain ⟨e, hrefused⟩ := claimDelegatorRewards_refused hchecks
    rw [hrefused]
    exact .refused e hchecks

/-- The same for the pool of one validator, whose record is `v`: a claim passes it by, takes a
share that is not paid, or is paid. -/
inductive ClaimEffect (db : ZbxDb) (validator : Address) (h : ClaimHistory B) (c : DelegatorClaim)
    (v : Validator) (h' : ClaimHistory B) : Prop
  | passed (hget : h'.state.vs.get validator = some v) (hdelta : h'.state.delta = h.state.delta)
      (hreceived : h'.received = h.received)
      (hskip : c.validator = validator → c.sent = 0 →
        h.state.delta.getDelegation db validator c.sender = 0)
  | lost (stake : Nat) (hstake : h.state.delta.getDelegation db validator c.sender = stake)
      (hpos : stake ≠ 0) (hget : h'.state.vs.get validator = some (v.claimDelegatorShare stake).2)
      (hdelta : h'.state.delta = h.state.delta) (hreceived : h'.received = h.received)
      (hfail : (v.claimDelegatorShare stake).1 = 0 ∨
        getBalance h.state.balances stakingPrecompileAddr < (v.claimDelegatorShare stake).1)
  | paid (stake : Nat) (hstake : h.state.delta.getDelegation db validator c.sender = stake)
      (hpos : stake ≠ 0) (hvalidator : c.validator = validator) (hsent : c.sent = 0)
      (hget : h'.state.vs.get validator = some (v.claimDelegatorShare stake).2)
      (hdelta : h'.state.delta = h.state.delta)
      (hreceived : h'.received = fun d => if d = c.sender then
        h.received d + (v.claimDelegatorShare stake).1 else h.received d)
      (hshare : (v.claimDelegatorShare stake).1 ≠ 0)
      (hescrow : (v.claimDelegatorShare stake).1 ≤
        getBalance h.state.balances stakingPrecompileAddr)

omit [BalanceAccess B] in
theorem poolOf_of_get {s : StakingState B} {v : Validator} (hv : s.vs.get validator = some v) :
    poolOf s validator = v.delegatorRewardPool := by
  unfold poolOf
  rw [hv]
  rfl

theorem Validator.pool_sub_claimed (v : Validator) (stake : Nat) :
    v.delegatorRewardPool - (v.claimDelegatorShare stake).2.delegatorRewardPool =
      (v.claimDelegatorShare stake).1 := by
  have hle : v.delegatorShare stake ≤ v.delegatorRewardPool := Nat.min_le_right _ _
  unfold claimDelegatorShare
  split
  · exact Nat.sub_self _
  · exact Nat.sub_sub_self hle

theorem claim_effect {v : Validator} {result : EStateM.Result StakingError (StakingState B) Nat}
    (hv : h.state.vs.get validator = some v) (hout : ClaimOutcome db h.state c result) :
    ClaimEffect db validator h c v (h.record validator c.sender result) := by
  cases hout with
  | refused e hchecks =>
    refine .passed hv rfl rfl fun hvalidator hsent => ?_
    by_contra hpos
    rw [← hvalidator] at hpos hv
    exact hchecks ⟨hsent, hpos, v, hv⟩
  | lost e v' hv' hsent stake hstake hpos hfail =>
    by_cases hvalidator : c.validator = validator
    · rw [hvalidator] at hv' hstake
      cases hv.symm.trans hv'
      refine .lost stake hstake hpos ?_ rfl rfl hfail
      show (h.state.vs.put c.validator _).get validator = _
      rw [get_put, if_pos hvalidator.symm]
    refine .passed ?_ rfl rfl fun heq => absurd heq hvalidator
    show (h.state.vs.put c.validator _).get validator = _
    rw [get_put, if_neg (Ne.symm hvalidator), hv]
  | paid gas v' hv' hsent stake hstake hpos hshare hescrow =>
    by_cases hvalidator : c.validator = validator
    · rw [hvalidator] at hv' hstake
      cases hv.symm.trans hv'
      have hget : (h.state.vs.put c.validator (v.claimDelegatorShare stake).2).get validator =
          some (v.claimDelegatorShare stake).2 := by
        rw [get_put, if_pos hvalidator.symm]
      refine .paid stake hstake hpos hvalidator hsent hget rfl ?_ hshare hescrow
      funext d
      rw [← v.pool_sub_claimed stake, ← poolOf_of_get hv]
      exact congrArg (fun left => if d = c.sender then
        h.received d + (poolOf h.state validator - left) else h.received d)
        (poolOf_of_get hget)
    · have hget : (h.state.vs.put c.validator (v'.claimDelegatorShare stake).2).get validator =
          some v := by
        rw [get_put, if_neg (Ne.symm hvalidator), hv]
      refine .passed hget rfl ?_ fun heq => absurd heq hvalidator
      funext d
      show (if d = c.sender then h.received d + (poolOf h.state validator - _) else _) = _
      rw [poolOf_of_get hv, poolOf_of_get hget, Nat.sub_self, Nat.add_zero, ite_self]

variable {v : Validator} {h' : ClaimHistory B}

theorem Validator.InProportion.share_ne_zero (hv : v.InProportion pool denominator)
    (hdenom : 0 < denominator) {s : Nat} (hpart : WholePart pool denominator s) (hpos : s ≠ 0)
    (hleft : v.delegatorRewardPool ≠ 0) : (v.claimDelegatorShare s).1 ≠ 0 := by
  rw [(hv.claim hdenom hpart).1]
  have hpool : pool ≠ 0 := by
    have hle := hv.pool_le
    omega
  have hpart' : 0 < pool * s / denominator :=
    Nat.div_pos (Nat.le_of_dvd (Nat.mul_pos (Nat.pos_of_ne_zero hpool) (Nat.pos_of_ne_zero hpos))
      hpart.whole) hdenom
  omega

section

variable (heffect : ClaimEffect db validator h c v h')
  (hfair : h.Fair db validator pool denominator stake) (hv : h.state.vs.get validator = some v)
  (hprop : v.InProportion pool denominator) (hdenom : 0 < denominator)
  (hpart : WholePart pool denominator (stake c.sender))

include heffect hfair hv hprop hdenom hpart

theorem ClaimEffect.fair : h'.Fair db validator pool denominator stake := by
  cases heffect with
  | passed hget hdelta hreceived hskip =>
    refine ⟨⟨v, hget, hprop⟩, hdelta ▸ hfair.delegated, ?_⟩
    rw [hreceived, poolOf_of_get hget, ← poolOf_of_get hv]
    exact hfair.paid
  | lost s hstake hpos hget hdelta hreceived hfail =>
    obtain rfl : s = stake c.sender := by rw [← hstake, hfair.delegated]
    obtain ⟨-, hleft, hprop'⟩ := hprop.claim hdenom hpart
    refine ⟨⟨_, hget, hprop'⟩, hdelta ▸ hfair.delegated, ?_⟩
    rw [hreceived, poolOf_of_get hget]
    intro hne
    refine hfair.paid ?_
    rw [poolOf_of_get hv]
    omega
  | paid s hstake hpos hvalidator hsent hget hdelta hreceived hshare hescrow =>
    obtain rfl : s = stake c.sender := by rw [← hstake, hfair.delegated]
    obtain ⟨hshare', hleft, hprop'⟩ := hprop.claim hdenom hpart
    refine ⟨⟨_, hget, hprop'⟩, hdelta ▸ hfair.delegated, ?_⟩
    rw [hreceived, poolOf_of_get hget]
    intro hne d hd
    dsimp only at hd ⊢
    split
    · -- something is left, so the share was the whole part
      rename_i heq
      rw [heq]
      omega
    rename_i hother
    rw [if_neg hother] at hd
    refine hfair.paid ?_ d hd
    rw [poolOf_of_get hv]
    omega

theorem ClaimEffect.within_iff (hwithin : h.Within pool denominator stake) :
    h'.Within pool denominator stake ↔ h.First validator pool denominator stake c := by
  unfold ClaimHistory.First
  rw [poolOf_of_get hv]
  cases heffect with
  | passed hget hdelta hreceived hskip =>
    refine iff_of_true (fun d => hreceived ▸ hwithin d) fun hvalidator hsent _ _ => ?_
    have hzero : stake c.sender = 0 := by
      rw [← hfair.delegated]
      exact hskip hvalidator hsent
    have hle := hwithin c.sender
    rw [hzero, Nat.mul_zero, Nat.zero_div] at hle
    exact Nat.le_zero.mp hle
  | lost s hstake hpos hget hdelta hreceived hfail =>
    obtain rfl : s = stake c.sender := by rw [← hstake, hfair.delegated]
    have hshare := (hprop.claim hdenom hpart).1
    refine iff_of_true (fun d => hreceived ▸ hwithin d) fun _ _ hleft hescrow => ?_
    have hne := hprop.share_ne_zero hdenom hpart hpos hleft
    exact absurd (hfail.resolve_left hne) (by omega)
  | paid s hstake hpos hvalidator hsent hget hdelta hreceived hshare hescrow =>
    obtain rfl : s = stake c.sender := by rw [← hstake, hfair.delegated]
    have hshare' := (hprop.claim hdenom hpart).1
    have hleft : v.delegatorRewardPool ≠ 0 := by omega
    constructor
    · intro hafter _ _ _ _
      by_contra hpaid
      have hfull := hfair.paid (by rwa [poolOf_of_get hv]) c.sender hpaid
      have hsender := hafter c.sender
      rw [hreceived] at hsender
      dsimp only at hsender
      rw [if_pos rfl] at hsender
      omega
    · intro hfirst d
      have hnone := hfirst hvalidator hsent hleft (by omega)
      rw [hreceived]
      dsimp only
      split
      · rename_i heq
        rw [heq, hnone]
        omega
      · exact hwithin d

end

theorem ClaimEffect.received_le (heffect : ClaimEffect db validator h c v h') (d : Address) :
    h.received d ≤ h'.received d := by
  cases heffect with
  | passed _ _ hreceived | lost _ _ _ _ _ hreceived =>
    rw [hreceived]
  | paid _ _ _ _ _ _ _ hreceived =>
    rw [hreceived]
    dsimp only
    split
    · exact Nat.le_add_right _ _
    · exact le_rfl

theorem claim_pays {s s' : StakingState B} {gas : Nat}
    (hok : dispatchStakingTx bls (.claimDelegatorRewards c.validator) c.sender c.sent c.height db
      s = .ok gas s') :
    s'.balances = payout s.balances c.sender (poolOf s c.validator - poolOf s' c.validator) := by
  have hout := claim_outcome bls db s c
  rw [hok] at hout
  cases hout with
  | paid _ v hv hsent stake hstake hpos hshare hescrow =>
    have hget : (s.vs.put c.validator (v.claimDelegatorShare stake).2).get c.validator =
        some (v.claimDelegatorShare stake).2 := by
      rw [get_put, if_pos rfl]
    rw [poolOf_of_get hv, poolOf_of_get hget, v.pool_sub_claimed]

/-- Every sequence of claims after a distribution that left the pool and the denominator of the
validator. What is received is what the accepted claims have paid. -/
theorem claims_within_iff (bls : Bls) (db : ZbxDb) (validator : Address) (s : StakingState B)
    (v : Validator) (claims : List DelegatorClaim) (hv : s.vs.get validator = some v)
    (hdenom : 0 < v.poolDenominator)
    (hparts : ∀ c ∈ claims, WholePart v.delegatorRewardPool v.poolDenominator
      (s.delta.getDelegation db validator c.sender)) :
    ((claims.foldl (ClaimHistory.step bls db validator) ⟨s, fun _ => 0⟩).Within
        v.delegatorRewardPool v.poolDenominator (s.delta.getDelegation db validator) ↔
      Meets (ClaimHistory.step bls db validator)
        (ClaimHistory.First validator v.delegatorRewardPool v.poolDenominator
          (s.delta.getDelegation db validator)) ⟨s, fun _ => 0⟩ claims) ∧
    ∀ (t t' : StakingState B) (c : DelegatorClaim) (gas : Nat),
      dispatchStakingTx bls (.claimDelegatorRewards c.validator) c.sender c.sent c.height db t =
        .ok gas t' →
      t'.balances = payout t.balances c.sender (poolOf t c.validator - poolOf t' c.validator) := by
  refine ⟨?_, fun t t' c gas hok => claim_pays hok⟩
  refine last_iff_meets (I := ClaimHistory.Fair db validator v.delegatorRewardPool
    v.poolDenominator (s.delta.getDelegation db validator)) ?_ ?_ ?_ ?_ ?_
  · intro c hc h hfair
    obtain ⟨w, hw, hprop⟩ := hfair.record
    exact (claim_effect hw (claim_outcome bls db h.state c)).fair hfair hw hprop hdenom
      (hparts c hc)
  · intro c hc h hfair hwithin
    obtain ⟨w, hw, hprop⟩ := hfair.record
    exact (claim_effect hw (claim_outcome bls db h.state c)).within_iff hfair hw hprop hdenom
      (hparts c hc) hwithin
  · intro c _ h hfair hafter d
    obtain ⟨w, hw, -⟩ := hfair.record
    exact Nat.le_trans ((claim_effect hw (claim_outcome bls db h.state c)).received_le d)
      (hafter d)
  · exact ⟨⟨v, hv, rfl, le_rfl⟩, fun _ => rfl, fun _ d hd => absurd rfl hd⟩
  · intro d
    exact Nat.zero_le _

end

def funded (pool denominator : Nat) (delegations : List (Address × Nat)) :
    StakingState (Map Address Nat) where
  vs := new.put 0xb2
    ⟨0xb2, [], minSelfStake, denominator, 0, .active, 0, 0, pool, denominator, 0⟩
  delta := delegations.foldl (fun delta d => delta.putDelegation 0xb2 d.1 d.2) .new
  balances := (∅ : Map Address Nat).insert stakingPrecompileAddr pool

def claimOf (sender : Address) : DelegatorClaim := ⟨sender, 0xb2, 0, 1⟩

def receivedAfter (pool denominator : Nat) (delegations : List (Address × Nat))
    (claims : List Address) (d : Address) : Nat :=
  ((claims.map claimOf).foldl (ClaimHistory.step noBls .empty 0xb2)
    ⟨funded pool denominator delegations, fun _ => 0⟩).received d

theorem wholePart_funded : ∀ c ∈ [0xa1, 0xa2].map claimOf, WholePart 100 4
    ((funded 100 4 [(0xa1, 3), (0xa2, 1)]).delta.getDelegation .empty 0xb2 c.sender) :=
  List.forall_mem_cons.mpr ⟨⟨by decide +kernel, by decide +kernel⟩,
    List.forall_mem_cons.mpr ⟨⟨by decide +kernel, by decide +kernel⟩, List.forall_mem_nil _⟩⟩

/-- Two delegators who claim once each are paid 75 and 25 of 100. -/
theorem single_claims_within :
    (([0xa1, 0xa2].map claimOf).foldl (ClaimHistory.step noBls .empty 0xb2)
      ⟨funded 100 4 [(0xa1, 3), (0xa2, 1)], fun _ => 0⟩).Within 100 4
        ((funded 100 4 [(0xa1, 3), (0xa2, 1)]).delta.getDelegation .empty 0xb2) ∧
    receivedAfter 100 4 [(0xa1, 3), (0xa2, 1)] [0xa1, 0xa2] 0xa1 = 75 ∧
    receivedAfter 100 4 [(0xa1, 3), (0xa2, 1)] [0xa1, 0xa2] 0xa2 = 25 := by
  refine ⟨(claims_within_iff noBls .empty 0xb2 (funded 100 4 [(0xa1, 3), (0xa2, 1)])
    ⟨0xb2, [], minSelfStake, 4, 0, .active, 0, 0, 100, 4, 0⟩
    ([0xa1, 0xa2].map claimOf) rfl (by decide) wholePart_funded).1.mpr ?_,
    by decide +kernel, by decide +kernel⟩
  refine meets_cons.mpr ⟨fun _ _ _ _ => rfl, meets_cons.mpr ⟨fun _ _ _ _ => ?_, meets_nil⟩⟩
  decide +kernel

/-- Who has half of the stake and claims twice is paid all of the pool. Where the product overflows,
the first claim takes no share and most of the denominator, and the second one, for 1000 of a stake
of `10 ^ 24 + 1000`, all of the pool. And the last of three equal claims on 10 is paid 4. -/
theorem claims_above_part :
    (receivedAfter 100 4 [(0xa1, 2), (0xa2, 2)] [0xa1, 0xa1] 0xa1 = 100 ∧ 100 * 2 / 4 = 50) ∧
    (receivedAfter (10 ^ 20) (10 ^ 24 + 1000) [(0xa1, 10 ^ 24), (0xa2, 1000)] [0xa1, 0xa2] 0xa2 =
      10 ^ 20 ∧ 10 ^ 20 * 1000 / (10 ^ 24 + 1000) = 0) ∧
    (receivedAfter 10 3 [(0xa1, 1), (0xa2, 1), (0xa3, 1)] [0xa1, 0xa2, 0xa3] 0xa3 = 4 ∧
      10 * 1 / 3 = 3) := by
  decide +kernel

end ZbxChain

import ZbxChain.Staking.Delegations

/-!
# The distribution of rewards

`RewardDistributor` of `zbx-staking/src/rewards.rs`: every hundredth block the subsidies of the
last hundred blocks and the fees are split between the proposer, the active validators and their
delegators.
-/

namespace ZbxChain

open FiniteMap ValidatorSet List

/-! ## Arithmetic that may overflow -/

def mulU128 (a b : Nat) : Nat × Bool := (a * b % 2 ^ 128, decide (2 ^ 128 ≤ a * b))

def sumU128 (l : List Nat) : Nat × Bool := (l.sum % 2 ^ 128, decide (2 ^ 128 ≤ l.sum))

theorem mulU128_le (a b : Nat) : (mulU128 a b).1 ≤ a * b := Nat.mod_le _ _

theorem mulU128_fits {a b : Nat} : (mulU128 a b).2 = false ↔ a * b < 2 ^ 128 := by
  unfold mulU128
  rw [decide_eq_false_iff_not, Nat.not_le]

/-! ## The distributor -/

def rewardInterval : Nat := 100

/-- The subsidies of the blocks of the window that ends at `height`. -/
def intervalBase (height : UInt64) : Nat :=
  let windowStart := height.toNat - (rewardInterval - 1)
  ((range' windowStart (height.toNat + 1 - windowStart)).map blockRewardAt).sum

def intervalEscrowMint (height : UInt64) (accumulatedFees : Nat) : Nat :=
  if height.toNat % rewardInterval ≠ 0 then 0
  else satAddU128 (intervalBase height) accumulatedFees

/-- Ten percent go to the proposer; this is the rest. -/
def committeeShare (height : UInt64) (accumulatedFees : Nat) : Nat :=
  intervalEscrowMint height accumulatedFees - intervalEscrowMint height accumulatedFees / 10

namespace Validator

def commissionOf (v : Validator) (reward : Nat) : Nat × Bool :=
  if reward * v.commissionBps < 2 ^ 128 then (reward * v.commissionBps / 10000, false)
  else mulU128 (reward / 10000) v.commissionBps

def selfShare (v : Validator) (totalReward : Nat) : Nat × Bool :=
  if totalReward * v.selfStake < 2 ^ 128 then (totalReward * v.selfStake / v.totalStake, false)
  else mulU128 (totalReward / v.totalStake) v.selfStake

def payShare (v : Validator) (totalReward : Nat) : Validator × Bool :=
  if totalReward = 0 then (v, false)
  else if v.delegatedStake = 0 then
    ({ v with pendingRewards := satAddU128 v.pendingRewards totalReward }, false)
  else
    let self := v.selfShare totalReward
    let delegGross := totalReward - self.1
    let commission := v.commissionOf delegGross
    ({ v with
      pendingRewards := satAddU128 (satAddU128 v.pendingRewards self.1) commission.1
      poolDenominator := v.delegatedStake
      delegatorRewardPool := satAddU128 v.delegatorRewardPool (delegGross - commission.1) },
      self.2 || commission.2)

end Validator

variable (vs : ValidatorSet)

def ValidatorSet.payProposer (proposer : Address) (bonus : Nat) : ValidatorSet :=
  vs.modify proposer fun v => { v with pendingRewards := satAddU128 v.pendingRewards bonus }

def rewardMember (share totalActiveStake : Nat) (st : ValidatorSet × Bool) (addr : Address) :
    ValidatorSet × Bool :=
  match st.1.get addr with
  | none => st
  | some v =>
    let product := mulU128 share v.totalStake
    let paid := v.payShare (product.1 / totalActiveStake)
    (st.1.put addr paid.1, st.2 || (product.2 || paid.2))

def ValidatorSet.activeStakes : List Nat :=
  (vs.activeSet.filterMap vs.get).map Validator.totalStake

def distributeBlockReward (height : UInt64) (proposer : Address) (accumulatedFees : Nat) :
    ValidatorSet × Bool :=
  if height.toNat % rewardInterval ≠ 0 then (vs, false)
  else
    let total := satAddU128 (intervalBase height) accumulatedFees
    if total = 0 then (vs, false)
    else
      let proposerBonus := total / 10
      let totalActiveStake := sumU128 vs.activeStakes
      if totalActiveStake.1 = 0 then (vs, totalActiveStake.2)
      else
        vs.activeSet.foldl (rewardMember (total - proposerBonus) totalActiveStake.1)
          (vs.payProposer proposer proposerBonus, totalActiveStake.2)

/-! ## What is handed out -/

def Validator.rewards (v : Validator) : Nat := v.pendingRewards + v.delegatorRewardPool

def ValidatorSet.rewards : Nat :=
  totalBy (fun _ => Validator.rewards) vs.validators

namespace Validator

variable {v : Validator} {reward : Nat}

theorem commissionOf_le (hbps : v.commissionBps ≤ 10000) (reward : Nat) :
    (v.commissionOf reward).1 ≤ reward := by
  unfold commissionOf
  split
  · exact Nat.div_le_of_le_mul (by
      rw [Nat.mul_comm 10000]
      exact Nat.mul_le_mul_left reward hbps)
  calc (mulU128 (reward / 10000) v.commissionBps).1
      ≤ reward / 10000 * v.commissionBps := mulU128_le _ _
    _ ≤ reward / 10000 * 10000 := Nat.mul_le_mul_left _ hbps
    _ ≤ reward := Nat.div_mul_le_self _ _

theorem commissionOf_fits (hbps : v.commissionBps ≤ 10000) (hreward : reward < 2 ^ 128) :
    (v.commissionOf reward).2 = false := by
  unfold commissionOf
  split
  · rfl
  rw [mulU128_fits]
  refine Nat.lt_of_le_of_lt ?_ hreward
  exact Nat.le_trans (Nat.mul_le_mul_left _ hbps) (Nat.div_mul_le_self _ _)

theorem selfStake_le (hfits : v.totalStake < 2 ^ 128 - 1) : v.selfStake ≤ v.totalStake := by
  unfold totalStake satAddU128 at hfits ⊢
  omega

section

variable (hstake : v.selfStake ≤ v.totalStake)

include hstake

theorem selfShare_le (reward : Nat) : (v.selfShare reward).1 ≤ reward := by
  unfold selfShare
  split
  · refine Nat.div_le_of_le_mul ?_
    rw [Nat.mul_comm v.totalStake]
    exact Nat.mul_le_mul_left reward hstake
  calc (mulU128 (reward / v.totalStake) v.selfStake).1
      ≤ reward / v.totalStake * v.selfStake := mulU128_le _ _
    _ ≤ reward / v.totalStake * v.totalStake := Nat.mul_le_mul_left _ hstake
    _ ≤ reward := Nat.div_mul_le_self _ _

theorem selfShare_fits (hreward : reward < 2 ^ 128) : (v.selfShare reward).2 = false := by
  unfold selfShare
  split
  · rfl
  rw [mulU128_fits]
  refine Nat.lt_of_le_of_lt ?_ hreward
  exact Nat.le_trans (Nat.mul_le_mul_left _ hstake) (Nat.div_mul_le_self _ _)

theorem rewards_payShare_le (hbps : v.commissionBps ≤ 10000) (reward : Nat) :
    (v.payShare reward).1.rewards ≤ v.rewards + reward := by
  unfold payShare rewards
  split
  · exact Nat.le_add_right _ _
  split
  · have hsat := satAddU128_le v.pendingRewards reward
    dsimp only
    omega
  have hself := selfShare_le hstake reward
  have hcommission := commissionOf_le hbps (reward - (v.selfShare reward).1)
  have hpending := satAddU128_le v.pendingRewards (v.selfShare reward).1
  have hpending' := satAddU128_le (satAddU128 v.pendingRewards (v.selfShare reward).1)
    (v.commissionOf (reward - (v.selfShare reward).1)).1
  have hpool := satAddU128_le v.delegatorRewardPool
    (reward - (v.selfShare reward).1 - (v.commissionOf (reward - (v.selfShare reward).1)).1)
  dsimp only
  omega

theorem payShare_fits (hbps : v.commissionBps ≤ 10000)
    (hreward : reward < 2 ^ 128) : (v.payShare reward).2 = false := by
  unfold payShare
  split
  · rfl
  split
  · rfl
  dsimp only
  rw [selfShare_fits hstake hreward,
    commissionOf_fits hbps (Nat.lt_of_le_of_lt (Nat.sub_le _ _) hreward)]
  rfl

end

structure SameStake (v v' : Validator) : Prop where
  selfStake : v'.selfStake = v.selfStake
  delegatedStake : v'.delegatedStake = v.delegatedStake
  commissionBps : v'.commissionBps = v.commissionBps

theorem SameStake.totalStake {v v' : Validator} (h : v.SameStake v') :
    v'.totalStake = v.totalStake := by
  unfold Validator.totalStake
  rw [h.selfStake, h.delegatedStake]

theorem sameStake_payShare (v : Validator) (reward : Nat) : v.SameStake (v.payShare reward).1 := by
  unfold payShare
  split
  · exact ⟨rfl, rfl, rfl⟩
  · split <;> exact ⟨rfl, rfl, rfl⟩

end Validator

namespace ValidatorSet

variable {vs vs₀ : ValidatorSet} {addr : Address} {v v' : Validator}

theorem rewards_put (hv : vs.get addr = some v) (v' : Validator) :
    (vs.put addr v').rewards + v.rewards = vs.rewards + v'.rewards := by
  have hput := totalBy_insert (fun _ => Validator.rewards) vs.validators addr v'
  have hweight : weightBy (fun _ => Validator.rewards) vs.validators addr = v.rewards := by
    unfold weightBy
    rw [show vs.validators.lookup addr = some v from hv]
    rfl
  rw [hweight] at hput
  exact hput

structure SameStakes (vs₀ vs : ValidatorSet) : Prop where
  of_get : ∀ addr v₀, vs₀.get addr = some v₀ → ∃ v, vs.get addr = some v ∧ v₀.SameStake v
  get_of : ∀ addr v, vs.get addr = some v → ∃ v₀, vs₀.get addr = some v₀ ∧ v₀.SameStake v

theorem SameStakes.refl (vs : ValidatorSet) : SameStakes vs vs :=
  ⟨fun _ v hv => ⟨v, hv, rfl, rfl, rfl⟩, fun _ v hv => ⟨v, hv, rfl, rfl, rfl⟩⟩

theorem SameStakes.put (h : SameStakes vs₀ vs) (hv : vs.get addr = some v)
    (hsame : v.SameStake v') : SameStakes vs₀ (vs.put addr v') := by
  obtain ⟨v₀, hv₀, hsame₀⟩ := h.get_of addr v hv
  have hsame' : v₀.SameStake v' := ⟨hsame.selfStake.trans hsame₀.selfStake,
    hsame.delegatedStake.trans hsame₀.delegatedStake,
    hsame.commissionBps.trans hsame₀.commissionBps⟩
  refine ⟨fun other w₀ hw₀ => ?_, fun other w hw => ?_⟩
  · rw [get_put]
    split
    · rename_i heq
      rw [heq, hv₀] at hw₀
      cases hw₀
      exact ⟨v', rfl, hsame'⟩
    · exact h.of_get other w₀ hw₀
  rw [get_put] at hw
  split at hw
  · rename_i heq
    cases hw
    rw [heq]
    exact ⟨v₀, hv₀, hsame'⟩
  · exact h.get_of other w hw

theorem payProposer_cases (vs : ValidatorSet) (proposer : Address) (bonus : Nat) :
    SameStakes vs (vs.payProposer proposer bonus) ∧
      (vs.payProposer proposer bonus).rewards ≤ vs.rewards + bonus := by
  unfold payProposer modify
  cases hv : vs.get proposer with
  | none => exact ⟨.refl vs, Nat.le_add_right _ _⟩
  | some v =>
    refine ⟨(SameStakes.refl vs).put hv ⟨rfl, rfl, rfl⟩, ?_⟩
    have hput := rewards_put hv { v with pendingRewards := satAddU128 v.pendingRewards bonus }
    have hsat := satAddU128_le v.pendingRewards bonus
    unfold Validator.rewards at hput
    dsimp only at hput ⊢
    omega

end ValidatorSet

open ValidatorSet

section

variable {vs₀ : ValidatorSet} {st : ValidatorSet × Bool} {addr : Address}

structure Validator.Sound (v : Validator) : Prop where
  stake : v.selfStake ≤ v.totalStake
  commission : v.commissionBps ≤ 10000

theorem Validator.SameStake.sound {v v' : Validator} (h : v.SameStake v') (hv : v.Sound) :
    v'.Sound where
  stake := by
    rw [h.totalStake, h.selfStake]
    exact hv.stake
  commission := by
    rw [h.commissionBps]
    exact hv.commission

theorem rewardMember_some {v₀ : Validator} (h : SameStakes vs₀ st.1)
    (hv₀ : vs₀.get addr = some v₀) (share stake : Nat) :
    SameStakes vs₀ (rewardMember share stake st addr).1 ∧
      ((rewardMember share stake st addr).2 = false →
        st.2 = false ∧ share * v₀.totalStake < 2 ^ 128) ∧
      (v₀.Sound → st.2 = false → share * v₀.totalStake < 2 ^ 128 →
        (rewardMember share stake st addr).2 = false) ∧
      (v₀.Sound → (rewardMember share stake st addr).1.rewards ≤
        st.1.rewards + share * v₀.totalStake / stake) := by
  obtain ⟨v, hv, hsame⟩ := h.of_get addr v₀ hv₀
  unfold rewardMember
  rw [hv]
  dsimp only
  rw [← hsame.totalStake]
  refine ⟨h.put hv (v.sameStake_payShare _), ?_, ?_, ?_⟩
  · intro hflag
    rw [Bool.or_eq_false_iff, Bool.or_eq_false_iff] at hflag
    exact ⟨hflag.1, mulU128_fits.mp hflag.2.1⟩
  · intro hsound hflag hfits
    have hreward : (mulU128 share v.totalStake).1 / stake < 2 ^ 128 :=
      Nat.lt_of_le_of_lt (Nat.div_le_self _ _) (Nat.mod_lt _ (by decide))
    rw [hflag, mulU128_fits.mpr hfits,
      Validator.payShare_fits (hsame.sound hsound).stake (hsame.sound hsound).commission hreward]
    rfl
  intro hsound
  have hput := rewards_put hv (v.payShare ((mulU128 share v.totalStake).1 / stake)).1
  have hpaid := Validator.rewards_payShare_le (hsame.sound hsound).stake
    (hsame.sound hsound).commission ((mulU128 share v.totalStake).1 / stake)
  have hle : (mulU128 share v.totalStake).1 / stake ≤ share * v.totalStake / stake :=
    Nat.div_le_div_right (mulU128_le _ _)
  omega

theorem rewardMember_none (h : SameStakes vs₀ st.1) (hnone : vs₀.get addr = none)
    (share stake : Nat) : rewardMember share stake st addr = st := by
  unfold rewardMember
  cases hv : st.1.get addr with
  | none => rfl
  | some v =>
    obtain ⟨v₀, hv₀, -⟩ := h.get_of addr v hv
    rw [hnone] at hv₀
    cases hv₀

variable (share stake : Nat) (l : List Address) (h : SameStakes vs₀ st.1)

include h

theorem products_fit (hflag : (l.foldl (rewardMember share stake) st).2 = false) :
    st.2 = false ∧ ∀ addr ∈ l, ∀ v₀, vs₀.get addr = some v₀ → share * v₀.totalStake < 2 ^ 128 := by
  induction l generalizing st with
  | nil => exact ⟨hflag, fun _ hmem => absurd hmem not_mem_nil⟩
  | cons addr l ih =>
    cases hv₀ : vs₀.get addr with
    | none =>
      rw [foldl_cons, rewardMember_none h hv₀] at hflag
      obtain ⟨hst, hrest⟩ := ih h hflag
      refine ⟨hst, forall_mem_cons.mpr ⟨fun v hv => ?_, hrest⟩⟩
      rw [hv₀] at hv
      cases hv
    | some v₀ =>
      obtain ⟨hsame, hfits, -, -⟩ := rewardMember_some h hv₀ share stake
      obtain ⟨hround, hrest⟩ := ih hsame hflag
      refine ⟨(hfits hround).1, forall_mem_cons.mpr ⟨fun v hv => ?_, hrest⟩⟩
      rw [hv₀] at hv
      cases hv
      exact (hfits hround).2

theorem foldl_rewardMember (hsound : ∀ addr ∈ l, ∀ v₀, vs₀.get addr = some v₀ → v₀.Sound) :
    ((l.foldl (rewardMember share stake) st).1.rewards ≤ st.1.rewards +
      ((l.filterMap vs₀.get).map fun v => share * v.totalStake / stake).sum) ∧
    (st.2 = false → (∀ addr ∈ l, ∀ v₀, vs₀.get addr = some v₀ →
      share * v₀.totalStake < 2 ^ 128) → (l.foldl (rewardMember share stake) st).2 = false) := by
  induction l generalizing st with
  | nil => exact ⟨Nat.le_add_right _ _, fun hst _ => hst⟩
  | cons addr l ih =>
    obtain ⟨hfirst, hrest⟩ := forall_mem_cons.mp hsound
    rw [foldl_cons]
    cases hv₀ : vs₀.get addr with
    | none =>
      rw [rewardMember_none h hv₀, filterMap_cons_none hv₀]
      obtain ⟨hle, hfits⟩ := ih h hrest
      exact ⟨hle, fun hst hall => hfits hst (forall_mem_cons.mp hall).2⟩
    | some v₀ =>
      obtain ⟨hsame, -, hfits, hle⟩ := rewardMember_some h hv₀ share stake
      obtain ⟨hle', hfits'⟩ := ih hsame hrest
      rw [filterMap_cons_some hv₀, map_cons, sum_cons]
      have hround := hle (hfirst v₀ hv₀)
      refine ⟨by omega, fun hst hall => ?_⟩
      obtain ⟨hproduct, hall'⟩ := forall_mem_cons.mp hall
      exact hfits' (hfits (hfirst v₀ hv₀) hst (hproduct v₀ hv₀)) hall'

end

theorem sum_parts_le (share : Nat) {ws : List Nat} (hpos : 0 < ws.sum) :
    (ws.map fun w => share * w / ws.sum).sum ≤ share := by
  have hscaled (total : Nat) (l : List Nat) :
      (l.map fun w => share * w / total).sum * total ≤ share * l.sum := by
    induction l with
    | nil => simp
    | cons w l ih =>
      rw [map_cons, sum_cons, sum_cons, Nat.add_mul, Nat.mul_add]
      exact Nat.add_le_add (Nat.div_mul_le_self _ _) ih
  exact Nat.le_of_mul_le_mul_right (hscaled ws.sum ws) hpos

variable {addr proposer : Address} {accumulatedFees : Nat} {height : UInt64} {v : Validator}
  {vs : ValidatorSet}

theorem ValidatorSet.totalStake_le (hmem : addr ∈ vs.activeSet) (hv : vs.get addr = some v) :
    v.totalStake ≤ vs.activeStakes.sum := by
  refine le_sum_of_mem ?_
  exact mem_map_of_mem (mem_filterMap.mpr ⟨addr, hmem, hv⟩)

theorem distributeBlockReward_eq (hheight : height.toNat % rewardInterval = 0)
    (hsupply : vs.activeStakes.sum ≤ totalSupply)
    (htotal : intervalEscrowMint height accumulatedFees ≠ 0) (hactive : vs.activeStakes.sum ≠ 0) :
    distributeBlockReward vs height proposer accumulatedFees =
      vs.activeSet.foldl (rewardMember (committeeShare height accumulatedFees) vs.activeStakes.sum)
        (vs.payProposer proposer (intervalEscrowMint height accumulatedFees / 10), false) := by
  have hmint : intervalEscrowMint height accumulatedFees =
      satAddU128 (intervalBase height) accumulatedFees := if_neg (not_not.mpr hheight)
  have hlt : vs.activeStakes.sum < 2 ^ 128 := Nat.lt_of_le_of_lt hsupply (by decide)
  have hsum : sumU128 vs.activeStakes = (vs.activeStakes.sum, false) := by
    unfold sumU128
    rw [Nat.mod_eq_of_lt hlt, decide_eq_false (Nat.not_le.mpr hlt)]
  unfold distributeBlockReward committeeShare
  rw [hmint] at htotal ⊢
  rw [if_neg (not_not.mpr hheight), hsum]
  rw [if_neg htotal, if_neg hactive]

theorem distributeBlockReward_idle (hheight : height.toNat % rewardInterval = 0)
    (hidle : intervalEscrowMint height accumulatedFees = 0 ∨ vs.activeStakes.sum = 0) :
    distributeBlockReward vs height proposer accumulatedFees = (vs, false) := by
  have hmint : intervalEscrowMint height accumulatedFees =
      satAddU128 (intervalBase height) accumulatedFees := if_neg (not_not.mpr hheight)
  unfold distributeBlockReward
  rw [if_neg (not_not.mpr hheight)]
  dsimp only
  rw [← hmint]
  split
  · rfl
  rename_i htotal
  have hzero := hidle.resolve_left htotal
  have hsum : sumU128 vs.activeStakes = (0, false) := by
    unfold sumU128
    rw [hzero]
    rfl
  rw [hsum]
  rfl

/-- A distribution at the end of an interval, for active validators with at most the total supply
at stake. If no commission is above the whole, it hands out at most what is minted, and it
overflows nowhere just when the products of the committee's share with the stakes fit. In any
case it overflows when one of them does not. -/
theorem distribution_iff (vs : ValidatorSet) (height : UInt64) (proposer : Address)
    (accumulatedFees : Nat) (hheight : height.toNat % rewardInterval = 0)
    (hsupply : vs.activeStakes.sum ≤ totalSupply) :
    ((∀ addr ∈ vs.activeSet, ∀ v, vs.get addr = some v → v.commissionBps ≤ 10000) →
      (distributeBlockReward vs height proposer accumulatedFees).1.rewards ≤
        vs.rewards + intervalEscrowMint height accumulatedFees ∧
      ((distributeBlockReward vs height proposer accumulatedFees).2 = false ↔
        ∀ addr ∈ vs.activeSet, ∀ v, vs.get addr = some v →
          committeeShare height accumulatedFees * v.totalStake < 2 ^ 128)) ∧
    ((distributeBlockReward vs height proposer accumulatedFees).2 = false →
      ∀ addr ∈ vs.activeSet, ∀ v, vs.get addr = some v →
        committeeShare height accumulatedFees * v.totalStake < 2 ^ 128) := by
  by_cases hidle : intervalEscrowMint height accumulatedFees = 0 ∨ vs.activeStakes.sum = 0
  · have hfits : ∀ addr ∈ vs.activeSet, ∀ v, vs.get addr = some v →
        committeeShare height accumulatedFees * v.totalStake < 2 ^ 128 := by
      intro addr hmem v hv
      have hzero : committeeShare height accumulatedFees * v.totalStake = 0 := by
        rcases hidle with hmint | hstake
        · unfold committeeShare
          rw [hmint, Nat.zero_sub, Nat.zero_mul]
        have hle := totalStake_le hmem hv
        rw [hstake] at hle
        rw [Nat.le_zero.mp hle, Nat.mul_zero]
      rw [hzero]
      decide
    rw [distributeBlockReward_idle hheight hidle]
    exact ⟨fun _ => ⟨Nat.le_add_right _ _, iff_of_true rfl hfits⟩, fun _ => hfits⟩
  rw [not_or] at hidle
  rw [distributeBlockReward_eq hheight hsupply hidle.1 hidle.2]
  obtain ⟨hsame, hbonus⟩ := vs.payProposer_cases proposer
    (intervalEscrowMint height accumulatedFees / 10)
  have hsame' : SameStakes vs (vs.payProposer proposer
    (intervalEscrowMint height accumulatedFees / 10), false).1 := hsame
  have hproducts (hflag : _) := (products_fit (committeeShare height accumulatedFees)
    vs.activeStakes.sum vs.activeSet hsame' hflag).2
  refine ⟨fun hcommission => ?_, hproducts⟩
  have hsound : ∀ addr ∈ vs.activeSet, ∀ v, vs.get addr = some v → v.Sound := by
    intro addr hmem v hv
    have hle := Nat.le_trans (totalStake_le hmem hv) hsupply
    exact ⟨v.selfStake_le (Nat.lt_of_le_of_lt hle (by decide)), hcommission addr hmem v hv⟩
  obtain ⟨hpaid, hfits⟩ := foldl_rewardMember (committeeShare height accumulatedFees)
    vs.activeStakes.sum vs.activeSet hsame' hsound
  refine ⟨?_, hproducts, hfits rfl⟩
  have hparts : ((vs.activeSet.filterMap vs.get).map fun v =>
      committeeShare height accumulatedFees * v.totalStake / vs.activeStakes.sum).sum ≤
        committeeShare height accumulatedFees := by
    have hle := sum_parts_le (committeeShare height accumulatedFees)
      (Nat.pos_of_ne_zero hidle.2)
    unfold activeStakes at hle ⊢
    rw [map_map] at hle
    exact hle
  have hshare : committeeShare height accumulatedFees +
      intervalEscrowMint height accumulatedFees / 10 = intervalEscrowMint height accumulatedFees :=
    Nat.sub_add_cancel (Nat.div_le_self _ _)
  refine Nat.le_trans hpaid ?_
  show (vs.payProposer proposer _).rewards + _ ≤ _
  omega

/-- One active validator with the least stake of its own and as much again from delegators. -/
def oneActive : ValidatorSet where
  validators := (∅ : Map Address Validator).insert 0xb2 ⟨0xb2, [], minSelfStake,
    minSelfStake, 2000, .active, 0, 0, 0, 0, 0⟩
  activeSet := [0xb2]
  currentEpoch := 0

theorem get_oneActive (hmem : addr ∈ oneActive.activeSet) (hv : oneActive.get addr = some v) :
    v = ⟨0xb2, [], minSelfStake, minSelfStake, 2000, .active, 0, 0, 0, 0, 0⟩ := by
  rw [mem_singleton.mp hmem] at hv
  exact (Option.some.inj hv).symm

/-- Fees of 1000 after the last halving: 100 for the proposer, 450 for its own stake and 90 for the
commission, which leaves 360 for the delegators. -/
theorem fees_distributed : (distributeBlockReward oneActive 4036608000 0xb2 1000).2 = false ∧
    (distributeBlockReward oneActive 4036608000 0xb2 1000).1.rewards ≤
      oneActive.rewards + intervalEscrowMint 4036608000 1000 ∧
    ((distributeBlockReward oneActive 4036608000 0xb2 1000).1.get 0xb2).map
      (fun v => (v.pendingRewards, v.delegatorRewardPool)) = some (640, 360) := by
  obtain ⟨hle, hfits⟩ := (distribution_iff oneActive 4036608000 0xb2 1000 (by decide)
    (by decide +kernel)).1 fun addr hmem v hv => by
      rw [get_oneActive hmem hv]
      decide
  refine ⟨hfits.mpr fun addr hmem v hv => ?_, hle, by decide +kernel⟩
  rw [get_oneActive hmem hv]
  decide +kernel

/-- The first interval: 200 ZBX are minted, 180 of them for the committee, and their product with
the stake of the only validator does not fit. -/
theorem first_interval_overflows : intervalEscrowMint 100 0 = 200 * 10 ^ 18 ∧
    (distributeBlockReward oneActive 100 0xb2 0).2 = true ∧
    (distributeBlockReward oneActive 100 0xb2 0).1.rewards < 21 * 10 ^ 18 := by
  decide +kernel

end ZbxChain

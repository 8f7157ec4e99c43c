import ZbxChain.Execution.StakingRuns
import ZbxChain.Staking.Pipeline
import ZbxChain.Staking.Solvency

/-!
# The escrow stays solvent

`executeStakingTxWith` is `execute_staking_tx` with a slashing pipeline, which appeals go to. The
surplus of the escrow is its balance without what it owes.
-/

namespace ZbxChain

open ZvmStateAccess ValidatorSet

/-! ## Appeals -/

def runStakingCallWith (E : Engines) (pipeline : Option SlashingPipeline) (tx : SignedTransaction)
    (header : BlockHeader) (db : ZbxDb) (s : StakingState StateView) :
    Option Nat × StakingState StateView × Option SlashingPipeline :=
  match E.decodeStakingCall tx.tx.data, pipeline with
  | .ok (.fileAppeal id), some p =>
    match dispatchFileAppealTx p id tx.sender tx.tx.valueU128 header.number with
    | .ok (gas, p') => (some gas, s, some p')
    | .error _ => (none, s, some p)
  | _, _ =>
    let (dispatched, s) := runStakingCall E tx header db s
    (dispatched, s, pipeline)

def executeStakingTxWith (E : Engines) (pipeline : Option SlashingPipeline)
    (tx : SignedTransaction) (header : BlockHeader) (db : ZbxDb) (vs : ValidatorSet)
    (delta : StakingDelta) (view : StateView) :
    ExecResult (TxResult × StakingState StateView × Option SlashingPipeline) := do
  let debited ← preflight tx view
  let (dispatched, s, pipeline) := runStakingCallWith E pipeline tx header db ⟨vs, delta, debited⟩
  let price := tx.effectiveGasPrice header.baseFeePerGas.toNat
  let gasUsed := gasCharged tx.tx (dispatched.getD 0)
  let success := dispatched.isSome
  let settled := settleStakingValue tx success (refundGas tx gasUsed price s.balances)
  return (⟨gasUsed, price, success, [], none⟩, { s with balances := settled }, pipeline)

section

variable (E : Engines) (pipeline : Option SlashingPipeline) (tx : SignedTransaction)
  (header : BlockHeader) (db : ZbxDb)

theorem runStakingCallWith_effect (s : StakingState StateView) :
    (runStakingCallWith E pipeline tx header db s).2.1 = s ∨
      ∃ call, StakingEffect db tx.sender tx.tx.valueU128 header.number call s
        (runStakingCallWith E pipeline tx header db s).1.isSome
        (runStakingCallWith E pipeline tx header db s).2.1 := by
  unfold runStakingCallWith
  split
  · refine .inl ?_
    split <;> rfl
  · exact .inr (runStakingCall_effect E header db tx s)

end

/-! ## The escrow account -/

def escrowWei (view : StateView) : Nat := (view.getAccount stakingPrecompileAddr).balance.toNat

section

variable {view view' : StateView} {tx : SignedTransaction}

theorem balanceOf_escrow (h : escrowWei view < 2 ^ 128) :
    balanceOf view stakingPrecompileAddr = escrowWei view := by
  show (view.getAccount stakingPrecompileAddr).balanceU128 = _
  unfold escrowWei at h ⊢
  unfold AccountState.balanceU128
  rw [if_neg (Nat.not_le.mpr h)]

theorem escrowWei_setBalance_self {wei : Nat} (h : wei < 2 ^ 128) :
    escrowWei (setBalance view stakingPrecompileAddr wei) = wei := by
  unfold escrowWei
  rw [StateView.getAccount_setBalance_self]
  exact AccountState.balance_setBalanceU128 _ h

theorem escrowWei_setBalance_ne {addr : Address} (wei : Nat) (h : addr ≠ stakingPrecompileAddr) :
    escrowWei (setBalance view addr wei) = escrowWei view := by
  unfold escrowWei
  rw [StateView.getAccount_setBalance_ne wei (Ne.symm h)]

theorem escrowWei_preflight (hsender : tx.sender ≠ stakingPrecompileAddr)
    (h : preflight tx view = .ok view') : escrowWei view' = escrowWei view := by
  rw [(preflight_ok h).debited]
  unfold escrowWei
  rw [StateView.getAccount_setAccount_ne _ (Ne.symm hsender)]

theorem escrowWei_paid {paid : Nat} (hsender : tx.sender ≠ stakingPrecompileAddr)
    (hfits : escrowWei view < 2 ^ 128) (h : PaidFromEscrow tx.sender view view' paid) :
    escrowWei view' + paid = escrowWei view := by
  rcases h with ⟨rfl, rfl⟩ | ⟨hle, rfl⟩
  · rfl
  have hbalance := balanceOf_escrow hfits
  have hle' : paid ≤ balanceOf view stakingPrecompileAddr := hle
  have hdebited : escrowWei (setBalance view stakingPrecompileAddr
      (balanceOf view stakingPrecompileAddr - paid)) =
      balanceOf view stakingPrecompileAddr - paid :=
    escrowWei_setBalance_self (by omega)
  have hpayout : escrowWei (payout view tx.sender paid) =
      balanceOf view stakingPrecompileAddr - paid :=
    (escrowWei_setBalance_ne _ hsender).trans hdebited
  omega

theorem escrowWei_settled (hsender : tx.sender ≠ stakingPrecompileAddr)
    (hfits : escrowWei view + tx.tx.valueU128 < 2 ^ 128) (success : Bool) (gasUsed price : Nat) :
    escrowWei (settleStakingValue tx success (refundGas tx gasUsed price view)) =
      escrowWei view + if success then tx.tx.valueU128 else 0 := by
  have hrefund : escrowWei (refundGas tx gasUsed price view) = escrowWei view :=
    escrowWei_setBalance_ne _ hsender
  unfold settleStakingValue
  cases success with
  | false =>
    rw [if_neg Bool.false_ne_true, if_neg Bool.false_ne_true, Nat.add_zero, ← hrefund]
    exact escrowWei_setBalance_ne _ hsender
  | true =>
    rw [if_pos rfl, if_pos rfl]
    split
    · have hbalance : balanceOf (refundGas tx gasUsed price view) stakingPrecompileAddr =
          escrowWei view := (balanceOf_escrow (by omega)).trans hrefund
      have hsum : satAddU128 (escrowWei view) tx.tx.valueU128 =
          escrowWei view + tx.tx.valueU128 := by
        unfold satAddU128
        omega
      unfold credit
      rw [hbalance, hsum]
      exact escrowWei_setBalance_self hfits
    · omega

end

/-! ## Sequences -/

structure AppealLedger extends StakingLedger where
  pipeline : Option SlashingPipeline

namespace AppealLedger

def step (E : Engines) (l : AppealLedger) : StakingStep → AppealLedger
  | .tx tx header =>
    match executeStakingTxWith E l.pipeline tx header l.db l.state.vs l.state.delta
      l.state.balances with
    | .ok (_, s, pipeline) => ⟨⟨l.db, s⟩, pipeline⟩
    | .error _ => l
  | .commit view => ⟨l.toStakingLedger.step E (.commit view), l.pipeline⟩

def surplus (l : AppealLedger) : Int :=
  escrowWei l.state.balances - l.state.liabilities l.db

/-- A transaction is not sent by the escrow and its value does not overflow the balance of
the escrow; a commit leaves the escrow at least what it had. -/
def Covered (l : AppealLedger) : StakingStep → Prop
  | .tx tx _ => tx.sender ≠ stakingPrecompileAddr ∧
      escrowWei l.state.balances + tx.tx.valueU128 < 2 ^ 128
  | .commit view => escrowWei l.state.balances ≤ escrowWei view

variable (E : Engines) (l : AppealLedger)

theorem step_tx_refused {tx : SignedTransaction} (header : BlockHeader) {e : Fault ExecutionError}
    (h : preflight tx l.state.balances = .error e) : l.step E (.tx tx header) = l := by
  have hrun : executeStakingTxWith E l.pipeline tx header l.db l.state.vs l.state.delta
      l.state.balances = .error e := by
    unfold executeStakingTxWith
    rw [h]
    rfl
  simp only [step, hrun]

theorem step_tx_accepted {tx : SignedTransaction} (header : BlockHeader) {debited : StateView}
    (h : preflight tx l.state.balances = .ok debited) :
    ∃ (s : StakingState StateView) (success : Bool) (gasUsed price : Nat) (pipeline : _),
      (s = { l.state with balances := debited } ∨ ∃ call, StakingEffect l.db tx.sender
        tx.tx.valueU128 header.number call { l.state with balances := debited } success s) ∧
      l.step E (.tx tx header) = ⟨⟨l.db, { s with
        balances := settleStakingValue tx success (refundGas tx gasUsed price s.balances) }⟩,
          pipeline⟩ := by
  let r := runStakingCallWith E l.pipeline tx header l.db { l.state with balances := debited }
  let price := tx.effectiveGasPrice header.baseFeePerGas.toNat
  let gasUsed := gasCharged tx.tx (r.1.getD 0)
  have hrun : executeStakingTxWith E l.pipeline tx header l.db l.state.vs l.state.delta
      l.state.balances = .ok (⟨gasUsed, price, r.1.isSome, [], none⟩, { r.2.1 with
        balances := settleStakingValue tx r.1.isSome (refundGas tx gasUsed price r.2.1.balances) },
        r.2.2) := by
    unfold executeStakingTxWith
    rw [h]
    rfl
  refine ⟨r.2.1, r.1.isSome, gasUsed, price, r.2.2,
    runStakingCallWith_effect E l.pipeline tx header l.db { l.state with balances := debited }, ?_⟩
  simp only [step, hrun]

theorem step_surplus {t : StakingStep} (hapart : l.state.delta.Apart) (h : l.Covered t) :
    l.surplus ≤ (l.step E t).surplus := by
  cases t with
  | tx tx header =>
    obtain ⟨hsender, hfits⟩ := h
    cases hpre : preflight tx l.state.balances with
    | error e => rw [step_tx_refused E l header hpre]
    | ok debited =>
      obtain ⟨s, success, gasUsed, price, pipeline, hcall, hstep⟩ :=
        step_tx_accepted E l header hpre
      have hdebited := escrowWei_preflight hsender hpre
      -- what is paid was owed, and what is newly owed was sent
      obtain ⟨paid, hpaid, howed⟩ : ∃ paid, PaidFromEscrow tx.sender debited s.balances paid ∧
          s.liabilities l.db + paid ≤
            l.state.liabilities l.db + if success then tx.tx.valueU128 else 0 := by
        rcases hcall with rfl | ⟨call, heffect⟩
        · exact ⟨0, .inl ⟨rfl, rfl⟩, Nat.le_add_right _ _⟩
        · exact heffect.liabilities
      have hescrow := escrowWei_paid hsender (by omega) hpaid
      have hpaidFits : escrowWei s.balances + tx.tx.valueU128 < 2 ^ 128 := by omega
      have hsettled := escrowWei_settled hsender hpaidFits success gasUsed price
      have hsame : (l.step E (.tx tx header)).surplus =
          escrowWei (settleStakingValue tx success (refundGas tx gasUsed price s.balances)) -
            s.liabilities l.db := by
        rw [hstep]
        rfl
      rw [hsame, hsettled]
      unfold surplus
      omega
  | commit view =>
    have hqueued := l.state.delta.queued_commit l.db hapart l.state.delta.delegations.entries
    have hescrow : escrowWei l.state.balances ≤ escrowWei view := h
    have hsame : (l.step E (.commit view)).surplus =
        escrowWei view - l.state.liabilities l.db := by
      unfold surplus StakingState.liabilities
      rw [← hqueued]
      rfl
    rw [hsame]
    unfold surplus
    omega

theorem step_apart (t : StakingStep) (h : l.state.delta.Apart) :
    (l.step E t).state.delta.Apart := by
  cases t with
  | tx tx header =>
    cases hpre : preflight tx l.state.balances with
    | error e => rwa [step_tx_refused E l header hpre]
    | ok debited =>
      obtain ⟨s, success, gasUsed, price, pipeline, hcall, hstep⟩ :=
        step_tx_accepted E l header hpre
      rw [hstep]
      rcases hcall with rfl | ⟨call, heffect⟩
      · exact h
      · exact heffect.apart h
  | commit view =>
    intro key hdeleted
    rfl

end AppealLedger

def EscrowLedger := { l : AppealLedger // l.state.delta.Apart }

namespace EscrowLedger

def step (E : Engines) (l : EscrowLedger) (t : StakingStep) : EscrowLedger :=
  ⟨l.val.step E t, l.val.step_apart E t l.property⟩

def escrow (l : EscrowLedger) : Nat := escrowWei l.val.state.balances

def liabilities (l : EscrowLedger) : Nat := l.val.state.liabilities l.val.db

/-- No transaction, successful, failed or not accepted, takes from the surplus, unless the
escrow itself sends it or the balance of the escrow overflows. So in every sequence of such
steps the escrow goes on to cover what it owes. -/
theorem escrow_solvent (E : Engines) (l : EscrowLedger) :
    (∀ t, l.val.Covered t → l.val.surplus ≤ (l.step E t).val.surplus) ∧
      ∀ steps, Meets (step E) (fun l => l.val.Covered) l steps → l.liabilities ≤ l.escrow →
          (steps.foldl (step E) l).liabilities ≤ (steps.foldl (step E) l).escrow := by
  refine ⟨fun t ht => l.val.step_surplus E l.property ht, fun steps hsteps hcovers => ?_⟩
  refine foldl_of_meets (I := fun l => l.liabilities ≤ l.escrow) (fun l t hl ht => ?_) hcovers hsteps
  have hsurplus := l.val.step_surplus E l.property ht
  unfold AppealLedger.surplus at hsurplus
  unfold liabilities escrow at hl ⊢
  show (l.val.step E t).state.liabilities (l.val.step E t).db ≤
    escrowWei (l.val.step E t).state.balances
  omega

open StakingLedger in
def sampleEscrow (wei : Nat) : EscrowLedger :=
  ⟨⟨{ sampleLedger with state := { sampleLedger.state with
      balances := sampleLedger.state.balances.seedAccount stakingPrecompileAddr
        { AccountState.default with balance := .ofNat 256 wei } } }, none⟩, fun _ _ => rfl⟩

open StakingLedger in
theorem escrow_solvent_sample :
    ([sampleTx 1 minSelfStake [1], sampleTx 2 5 [3]].foldl (step sampleEngines)
      (sampleEscrow 0)).liabilities ≤
    ([sampleTx 1 minSelfStake [1], sampleTx 2 5 [3]].foldl (step sampleEngines)
      (sampleEscrow 0)).escrow := by
  refine (escrow_solvent sampleEngines (sampleEscrow 0)).2 _ ?_ (by decide +kernel)
  have hfirst : (sampleEscrow 0).val.Covered (sampleTx 1 minSelfStake [1]) := by
    constructor <;> decide +kernel
  have hsecond : ((sampleEscrow 0).step sampleEngines
      (sampleTx 1 minSelfStake [1])).val.Covered (sampleTx 2 5 [3]) := by
    constructor <;> decide +kernel
  exact meets_cons.mpr ⟨hfirst, meets_cons.mpr ⟨hsecond, meets_nil⟩⟩

open StakingLedger in
/-- A full escrow takes a stake without a credit, and owes it all the same. -/
theorem full_escrow_loses : ¬ (sampleEscrow (2 ^ 128 - 1)).val.surplus ≤
    ((sampleEscrow (2 ^ 128 - 1)).step sampleEngines
      (sampleTx 1 minSelfStake [1])).val.surplus := by
  decide +kernel

end EscrowLedger

end ZbxChain

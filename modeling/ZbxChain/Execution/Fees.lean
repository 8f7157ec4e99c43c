import ZbxChain.Execution.FailedTx
import ZbxChain.Execution.Supply

/-!
# What a transaction costs and moves

The sender pays `max_fee_per_gas * gas_limit` and the value in advance, and gets back what the
gas at the effective price leaves over. The results speak of the views between the steps
(`TxRun`), so that what the code itself moves is apart.
-/

namespace ZbxChain

open ZvmStateAccess StateView Block AccountState SignedTransaction

/-! ## Balances along a transaction -/

section

variable {view view' : StateView} {tx : SignedTransaction}

theorem balanceOf_credit_self (view : StateView) {addr : Address} {amount : Nat}
    (h : balanceOf view addr + amount < 2 ^ 128) :
    balanceOf (credit view addr amount) addr = balanceOf view addr + amount := by
  have hsat : satAddU128 (balanceOf view addr) amount = balanceOf view addr + amount := by
    unfold satAddU128
    omega
  unfold credit
  rw [hsat]
  exact balanceOf_setBalance_self view addr h

theorem balanceOf_credit_ne {addr other : Address} (amount : Nat) (h : other ≠ addr) :
    balanceOf (credit view addr amount) other = balanceOf view other :=
  balanceOf_setBalance_ne _ h

def ledgerTotal (view : StateView) : Nat := heldSupply view.base view

theorem seededFrom_base (view : StateView) : SeededFrom view.base view := by
  intro addr acct hlookup
  rw [hlookup]
  rfl

variable {stored : Map Address AccountState}

theorem StateView.SeededFrom.balanceOf_le_heldSupply (h : SeededFrom stored view)
    (addr : Address) : balanceOf view addr ≤ heldSupply stored view :=
  Nat.le_trans (h.balanceOf_le addr)
    (FiniteMap.weightBy_le (fun _ => wei) (held stored view) addr)

theorem balanceOf_drainDestructs_le (created : Finset Address)
    (pending : List (Address × Address)) (view : StateView) (addr : Address) :
    balanceOf (drainDestructs created pending view) addr ≤ balanceOf view addr := by
  induction pending generalizing view with
  | nil => exact le_rfl
  | cons d rest ih =>
    refine Nat.le_trans (ih _) ?_
    dsimp only
    split
    · by_cases heq : addr = d.1
      · rw [heq]
        show ((view.selfdestruct d.1).getAccount d.1).balanceU128 ≤ _
        rw [getAccount_selfdestruct_self]
        exact Nat.zero_le _
      show ((view.selfdestruct d.1).getAccount addr).balanceU128 ≤ _
      rw [getAccount_selfdestruct_ne view heq]
      exact le_rfl
    · exact le_rfl

variable {E : Engines} {header : BlockHeader} {target : CallTarget} {outcome : Outcome}

theorem runZvm_balanceOf_le (h : SeededFrom stored view)
    (hrun : runZvm E tx header target view = .ok (outcome, view')) (addr : Address) :
    balanceOf view' addr ≤ heldSupply stored view := by
  have hstate := txHost_state header target view
  have hseeded : SeededFrom stored (txHost header target view).state := hstate.symm ▸ h
  obtain ⟨hhost, hsupply⟩ := ProductionZvmHost.run_heldSupply_le hseeded
    (Zvm.interpret E.zvm (zvmContext tx header target))
  rw [hstate] at hsupply
  unfold runZvm at hrun
  split at hrun
  · cases hrun
  rename_i result host heq
  rw [heq] at hhost hsupply
  cases hrun
  have hle : balanceOf host.state addr ≤ heldSupply stored view :=
    Nat.le_trans (hhost.balanceOf_le_heldSupply addr) hsupply
  show balanceOf (if result.status = .success then
    drainDestructs host.createdThisTx host.pendingDestructs host.state else host.state) addr ≤ _
  split
  · exact Nat.le_trans (balanceOf_drainDestructs_le _ _ _ _) hle
  · exact hle

theorem runTarget_balanceOf_le (h : SeededFrom stored view)
    (hrun : runTarget E tx header target view = .ok (outcome, view')) (addr : Address) :
    balanceOf view' addr ≤ heldSupply stored view := by
  unfold runTarget at hrun
  split_ifs at hrun
  · cases hrun
    exact h.balanceOf_le_heldSupply addr
  · cases hrun
    exact h.balanceOf_le_heldSupply addr
  · exact runZvm_balanceOf_le h hrun addr
  · cases hrun
    exact h.balanceOf_le_heldSupply addr

section

variable (h : PreflightSpec tx view view')

include h

theorem PreflightSpec.balanceOf_sender :
    balanceOf view' tx.sender = balanceOf view tx.sender - upfrontCost tx.tx := by
  show (view'.getAccount tx.sender).balanceU128 = _
  rw [h.getAccount]
  unfold chargedAccount
  rw [if_pos rfl]
  have hlt := (view.getAccount tx.sender).balanceU128_lt
  exact balanceU128_setBalanceU128 (view.getAccount tx.sender) (by omega)

theorem PreflightSpec.balanceOf_ne {addr : Address}
    (hne : addr ≠ tx.sender) : balanceOf view' addr = balanceOf view addr := by
  show (view'.getAccount addr).balanceU128 = (view.getAccount addr).balanceU128
  rw [h.getAccount]
  unfold chargedAccount
  rw [if_neg hne]

theorem PreflightSpec.upfront_le (hfits : tx.tx.maxCost + tx.tx.valueU128 < 2 ^ 128) :
    upfrontCost tx.tx = tx.tx.maxCost + tx.tx.valueU128 ∧
      tx.tx.maxCost + tx.tx.valueU128 ≤ balanceOf view tx.sender := by
  have hcost : satAddU128 tx.tx.maxCost tx.tx.valueU128 ≤ balanceOf view tx.sender := h.cost_le
  refine ⟨Nat.mod_eq_of_lt hfits, ?_⟩
  unfold satAddU128 at hcost
  omega

end

theorem TxRun.balanceOf_ran_le {result : TxResult} (run : TxRun E tx header view result view')
    (hfits : tx.tx.maxCost + tx.tx.valueU128 < 2 ^ 128) (addr : Address) :
    balanceOf run.ran addr + (tx.tx.maxCost + tx.tx.valueU128) ≤ ledgerTotal view := by
  have hseeded := seededFrom_base view
  have hdebited := (preflight_reaches run.preflight_eq).seededFrom hseeded
  have hresolved := (resolveTarget_reaches tx run.debited).seededFrom hdebited
  have hpre := preflight_heldSupply_le hseeded hfits run.preflight_eq
  have hresolve := resolveTarget_heldSupply_le hdebited tx
  have hran := runTarget_balanceOf_le hresolved run.run_eq addr
  unfold ledgerTotal
  omega

theorem StakingRun.balanceOf_paid_le {result : TxResult}
    (run : StakingRun tx header view result view')
    (hfits : tx.tx.maxCost + tx.tx.valueU128 < 2 ^ 128) (addr : Address) :
    balanceOf run.paid addr + (tx.tx.maxCost + tx.tx.valueU128) ≤ ledgerTotal view := by
  have hseeded := seededFrom_base view
  have hdebited := (preflight_reaches run.preflight_eq).seededFrom hseeded
  have hpre := preflight_heldSupply_le hseeded hfits run.preflight_eq
  have hcall := run.paid_spec.heldSupply_le hdebited
  have hpaid := (run.paid_spec.reaches.seededFrom hdebited).balanceOf_le_heldSupply addr
  unfold ledgerTotal
  omega

end

/-! ## The price and the fee -/

variable (tx : SignedTransaction) (result : TxResult)

def gasRefund : Nat :=
  tx.tx.maxCost - result.gasUsed * result.effectivePrice

/-- The price is between the base fee and the sender's limit, and what step 2 takes from the
sender is the value, the gas at that price and what step 5 gives back. -/
structure ChargedAtPrice (tx : SignedTransaction) (header : BlockHeader) (result : TxResult)
    (view debited : StateView) : Prop where
  price_le : result.effectivePrice ≤ tx.tx.maxFeePerGas.toNat
  baseFee_le : header.baseFeePerGas.toNat ≤ result.effectivePrice
  paid : balanceOf view tx.sender = balanceOf debited tx.sender +
    (tx.tx.valueU128 + result.gasUsed * result.effectivePrice + gasRefund tx result)

/-- The limit covers the base fee, and the advance fits a `u128`. -/
def FeeCovered (tx : Transaction) (header : BlockHeader) : Prop :=
  header.baseFeePerGas.toNat ≤ tx.maxFeePerGas.toNat ∧ tx.maxCost + tx.valueU128 < 2 ^ 128

def RefundArrives (ran : StateView) : Prop :=
  balanceOf (refundGas tx result.gasUsed result.effectivePrice ran) tx.sender =
    balanceOf ran tx.sender + gasRefund tx result

section

variable {E : Engines} {tx : SignedTransaction} {header : BlockHeader} {result : TxResult}
  {view debited : StateView}

theorem effectiveGasPrice_le_iff (tx : SignedTransaction) (baseFee : Nat) :
    tx.effectiveGasPrice baseFee ≤ tx.tx.maxFeePerGas.toNat ↔
      baseFee ≤ tx.tx.maxFeePerGas.toNat := by
  unfold effectiveGasPrice
  omega

theorem chargedAtPrice_iff {used : Nat} (hpre : preflight tx view = .ok debited)
    (hgas : result.gasUsed = gasCharged tx.tx used)
    (hprice : result.effectivePrice = tx.effectiveGasPrice header.baseFeePerGas.toNat) :
    ChargedAtPrice tx header result view debited ↔ FeeCovered tx.tx header := by
  have spec := preflight_ok hpre
  have hdebit := spec.balanceOf_sender
  have hlimit := effectiveGasPrice_le_iff tx header.baseFeePerGas.toNat
  have howed (h : result.effectivePrice ≤ tx.tx.maxFeePerGas.toNat) :
      result.gasUsed * result.effectivePrice + gasRefund tx result = tx.tx.maxCost := by
    have hle : result.gasUsed * result.effectivePrice ≤ tx.tx.maxCost := by
      rw [hgas]
      unfold Transaction.maxCost
      rw [Nat.mul_comm]
      exact Nat.mul_le_mul h (Nat.min_le_right _ _)
    exact Nat.add_sub_cancel' hle
  constructor
  · rintro ⟨hle, -, hpaid⟩
    have hlt : balanceOf view tx.sender < 2 ^ 128 := balanceU128_lt _
    have hcost := howed hle
    rw [hprice] at hle
    exact ⟨hlimit.mp hle, by omega⟩
  rintro ⟨hbase, hfits⟩
  obtain ⟨hupfront, hbal⟩ := spec.upfront_le hfits
  have hle : result.effectivePrice ≤ tx.tx.maxFeePerGas.toNat := by
    rw [hprice]
    exact hlimit.mpr hbase
  refine ⟨hle, ?_, by omega⟩
  rw [hprice]
  exact Nat.le_add_right _ _

theorem refundArrives_of_le {ran : StateView}
    (h : balanceOf ran tx.sender + (tx.tx.maxCost + tx.tx.valueU128) < 2 ^ 128) :
    RefundArrives tx result ran := by
  refine balanceOf_credit_self ran ?_
  omega

end

/-- For every transaction that is accepted, ordinary or staking: the price and the payment are
right just when the limit covers the base fee and the advance fits; and the refund arrives in
full when in addition the ledger fits. -/
theorem price_and_fee_iff (E : Engines) (tx : SignedTransaction) (header : BlockHeader)
    (view : StateView) (result : TxResult) :
    (∀ view' : StateView, executeTx E tx header view = .ok (result, view') →
      ∃ run : TxRun E tx header view result view',
        (ChargedAtPrice tx header result view run.debited ↔ FeeCovered tx.tx header) ∧
        (FeeCovered tx.tx header → ledgerTotal view < 2 ^ 128 → RefundArrives tx result run.ran)) ∧
    (∀ (db : ZbxDb) (vs : ValidatorSet) (delta : StakingDelta) (s : StakingState StateView),
      executeStakingTx E tx header db vs delta view = .ok (result, s) →
      ∃ run : StakingRun tx header view result s.balances,
        (ChargedAtPrice tx header result view run.debited ↔ FeeCovered tx.tx header) ∧
        (FeeCovered tx.tx header → ledgerTotal view < 2 ^ 128 →
          RefundArrives tx result run.paid)) := by
  refine ⟨?_, ?_⟩
  · intro view' h
    obtain ⟨run⟩ := executeTx_ok h
    refine ⟨run, chargedAtPrice_iff run.preflight_eq run.gasUsed_eq run.price_eq, ?_⟩
    rintro ⟨-, hfits⟩ hledger
    exact refundArrives_of_le (Nat.lt_of_le_of_lt (run.balanceOf_ran_le hfits _) hledger)
  intro db vs delta s h
  obtain ⟨run⟩ := executeStakingTx_ok h
  refine ⟨run, chargedAtPrice_iff run.preflight_eq run.gasUsed_eq run.price_eq, ?_⟩
  rintro ⟨-, hfits⟩ hledger
  exact refundArrives_of_le (Nat.lt_of_le_of_lt (run.balanceOf_paid_le hfits _) hledger)

/-- A transfer and a staking call that does not decode, at a price of 2 of at most 2. -/
theorem transfer_and_staking_call_charged :
    (∃ result view', executeTx .idle (.basic 0xa1 0 (some 0xb2) 5 []) (first []).header
        invalidView = .ok (result, view') ∧
      ∃ run : TxRun .idle (.basic 0xa1 0 (some 0xb2) 5 []) (first []).header invalidView
          result view',
        ChargedAtPrice (.basic 0xa1 0 (some 0xb2) 5 []) (first []).header result invalidView
          run.debited ∧ RefundArrives (.basic 0xa1 0 (some 0xb2) 5 []) result run.ran) ∧
    (∃ result s, executeStakingTx .idle (.basic 0xa1 0 (some stakingPrecompileAddr) 5 [])
        (first []).header .empty .new .new invalidView = .ok (result, s) ∧
      ∃ run : StakingRun (.basic 0xa1 0 (some stakingPrecompileAddr) 5 []) (first []).header
          invalidView result s.balances,
        ChargedAtPrice (.basic 0xa1 0 (some stakingPrecompileAddr) 5 []) (first []).header
          result invalidView run.debited ∧
        RefundArrives (.basic 0xa1 0 (some stakingPrecompileAddr) 5 []) result run.paid) := by
  have hledger : ledgerTotal invalidView < 2 ^ 128 := by decide +kernel
  refine ⟨?_, ?_⟩
  · refine exists_ok_pair (by decide +kernel) fun result view' hrun => ?_
    have hcovered : FeeCovered (basic 0xa1 0 (some 0xb2) 5 []).tx
        (first []).header := ⟨by decide +kernel, by decide +kernel⟩
    obtain ⟨run, hiff, hrefund⟩ := (price_and_fee_iff _ _ _ _ _).1 _ hrun
    exact ⟨run, hiff.mpr hcovered, hrefund hcovered hledger⟩
  refine exists_ok_pair (by decide +kernel) fun result s hrun => ?_
  have hcovered : FeeCovered (basic 0xa1 0 (some stakingPrecompileAddr) 5 []).tx
      (first []).header := ⟨by decide +kernel, by decide +kernel⟩
  obtain ⟨run, hiff, hrefund⟩ := (price_and_fee_iff _ _ _ _ _).2 _ _ _ _ hrun
  exact ⟨run, hiff.mpr hcovered, hrefund hcovered hledger⟩

def dearHeader : BlockHeader := { (first []).header with baseFeePerGas := 10 }

/-- A sender who pays at most 2 for gas is charged at 10, and pays the advance, which is less
than the gas at that price. -/
theorem charged_above_limit : ∃ result view',
    executeTx .idle (.basic 0xa1 0 (some 0xb2) 5 []) dearHeader invalidView = .ok (result, view') ∧
    (basic 0xa1 0 (some 0xb2) 5 []).tx.maxFeePerGas.toNat = 2 ∧
    result.effectivePrice = 10 ∧ result.gasUsed * result.effectivePrice = 210000 ∧
    balanceOf invalidView 0xa1 = 1000000 ∧ balanceOf view' 0xa1 = 1000000 - 200000 - 5 := by
  decide +kernel

/-! ## The value -/

def feeKept : Nat :=
  min tx.tx.maxCost (result.gasUsed * result.effectivePrice)

/-- Who gets the value at the end, in a view in which the fee is settled: the sender gets it back
after a failure, and nobody gets it when the created contract is deleted. -/
def valueRecipient (success : Bool) (refunded : StateView) : Option Address :=
  if success then
    match tx.tx.dest with
    | some dest => some dest
    | none =>
      let addr := createTxAddress tx.sender tx.tx.nonce
      if refunded.isDeleted addr then none else some addr
  else some tx.sender

/-- The debit and the credit of the signed value, between the views of a run. -/
structure ValueMoved (tx : SignedTransaction) (result : TxResult) (view debited ran view' : StateView) :
    Prop where
  /-- The sender is debited the value and the fee; what `ran` has over `debited` is what the code
  moved. -/
  paid : balanceOf view tx.sender + balanceOf ran tx.sender = balanceOf debited tx.sender +
    balanceOf (refundGas tx result.gasUsed result.effectivePrice ran) tx.sender +
      (tx.tx.value.toNat + feeKept tx result)
  spared : ∀ addr, addr ≠ tx.sender → balanceOf debited addr = balanceOf view addr
  /-- The recipient is credited the value, and nobody else anything. -/
  credited : ∀ addr, balanceOf view' addr =
    balanceOf (refundGas tx result.gasUsed result.effectivePrice ran) addr +
      if valueRecipient tx result.success
          (refundGas tx result.gasUsed result.effectivePrice ran) = some addr
      then tx.tx.value.toNat else 0

section

variable {E : Engines} {tx : SignedTransaction} {header : BlockHeader} {result : TxResult}
  {view view' : StateView}

theorem balanceOf_credit_of_fits {amount : Nat} {dst : Address}
    (hfits : ∀ addr, balanceOf view addr + amount < 2 ^ 128) (addr : Address) :
    balanceOf (credit view dst amount) addr =
      balanceOf view addr + if some dst = some addr then amount else 0 := by
  by_cases heq : addr = dst
  · rw [heq, if_pos rfl]
    exact balanceOf_credit_self view (hfits dst)
  have hne : some dst ≠ some addr := by
    intro h
    exact heq (Option.some.inj h).symm
  rw [if_neg hne, balanceOf_credit_ne _ heq]
  rfl

theorem balanceOf_finalizeCreate {created : Address} (vm : VmKind) {value : Nat}
    (hfits : ∀ addr, balanceOf view addr + value < 2 ^ 128) (addr : Address) :
    balanceOf (finalizeCreate created vm value view) addr = balanceOf view addr +
      if (if view.isDeleted created then none else some created) = some addr then value else 0 := by
  unfold finalizeCreate
  by_cases hdeleted : view.isDeleted created = true
  · rw [if_pos hdeleted, if_pos hdeleted]
    rfl
  rw [if_neg hdeleted, if_neg hdeleted]
  by_cases heq : addr = created
  · subst heq
    rw [if_pos rfl]
    show ((view.setAccount addr _).getAccount addr).balanceU128 = _
    have hsum := hfits addr
    have hsat : satAddU128 (view.getAccount addr).balanceU128 value =
        balanceOf view addr + value := by
      show satAddU128 (balanceOf view addr) value = _
      unfold satAddU128
      omega
    have hfunded : (if 0 < value then (view.getAccount addr).setBalanceU128
        (satAddU128 (view.getAccount addr).balanceU128 value) else
          view.getAccount addr).balanceU128 = balanceOf view addr + value := by
      split
      · rw [hsat]
        exact balanceU128_setBalanceU128 _ hsum
      · next hzero =>
        rw [Nat.eq_zero_of_not_pos hzero]
        rfl
    rw [getAccount_setAccount_self]
    unfold balanceU128 at hfunded ⊢
    rw [guardAccount_balance]
    split
    · exact hfunded
    · exact hfunded
  · have hne : some created ≠ some addr := by
      intro h
      exact heq (Option.some.inj h).symm
    rw [if_neg hne]
    exact congrArg balanceU128 (getAccount_setAccount_ne _ heq)

theorem resolveTarget_contractAddress (hdest : tx.tx.dest = none) (view : StateView) :
    (resolveTarget tx view).1.contractAddress = some (createTxAddress tx.sender tx.tx.nonce) := by
  unfold resolveTarget
  rw [hdest]

theorem balanceOf_settleValue (resolved : StateView) (success : Bool)
    (hfits : ∀ addr, balanceOf view addr + tx.tx.valueU128 < 2 ^ 128) (addr : Address) :
    balanceOf (settleValue tx (resolveTarget tx resolved).1 success view) addr =
      balanceOf view addr +
        if valueRecipient tx success view = some addr then tx.tx.valueU128 else 0 := by
  unfold settleValue valueRecipient
  cases success with
  | false =>
    simp only [Bool.false_eq_true, if_false]
    exact balanceOf_credit_of_fits hfits addr
  | true =>
    simp only [if_true]
    cases hdest : tx.tx.dest with
    | some dest => exact balanceOf_credit_of_fits hfits addr
    | none =>
      rw [resolveTarget_contractAddress hdest]
      exact balanceOf_finalizeCreate _ hfits addr

theorem valueU128_of_fits {tx : Transaction} (h : tx.maxCost + tx.value.toNat < 2 ^ 128) :
    tx.valueU128 = tx.value.toNat := by
  have hlt : tx.value.toNat < 2 ^ 128 := by omega
  exact Nat.mod_eq_of_lt hlt

/-- An accepted transaction moves the value that was signed, and keeps the fee, when the value and
the advance for gas fit a `u128` together and so does the ledger. -/
theorem value_moved (h : executeTx E tx header view = .ok (result, view'))
    (hfits : tx.tx.maxCost + tx.tx.value.toNat < 2 ^ 128) (hledger : ledgerTotal view < 2 ^ 128) :
    ∃ run : TxRun E tx header view result view',
      ValueMoved tx result view run.debited run.ran view' := by
  obtain ⟨run⟩ := executeTx_ok h
  have hvalue := valueU128_of_fits hfits
  have spec := preflight_ok run.preflight_eq
  rw [← hvalue] at hfits
  obtain ⟨hupfront, hadvance⟩ := spec.upfront_le hfits
  have hdebit := spec.balanceOf_sender
  have hroom := run.balanceOf_ran_le hfits
  have hrefund : RefundArrives tx result run.ran :=
    refundArrives_of_le (Nat.lt_of_le_of_lt (hroom _) hledger)
  have hrefunded : ∀ addr,
      balanceOf (refundGas tx result.gasUsed result.effectivePrice run.ran) addr +
        tx.tx.valueU128 < 2 ^ 128 := by
    intro addr
    have hran := hroom addr
    by_cases heq : addr = tx.sender
    · rw [heq] at hran ⊢
      unfold RefundArrives gasRefund at hrefund
      omega
    unfold refundGas
    rw [balanceOf_credit_ne _ heq]
    omega
  refine ⟨run, ?_, fun addr hne => spec.balanceOf_ne hne, fun addr => ?_⟩
  · unfold RefundArrives gasRefund at hrefund
    unfold feeKept
    omega
  have hcredited := balanceOf_settleValue run.debited result.success hrefunded addr
  rw [hvalue] at hcredited
  exact (congrArg (balanceOf · addr) run.settled_eq).trans hcredited

end

/-- A transfer of 5. -/
theorem transfer_moves_five : ∃ result view',
    executeTx .idle (.basic 0xa1 0 (some 0xb2) 5 []) (first []).header invalidView =
      .ok (result, view') ∧ result.success = true ∧
    ∃ run : TxRun .idle (.basic 0xa1 0 (some 0xb2) 5 []) (first []).header invalidView result view',
      ValueMoved (.basic 0xa1 0 (some 0xb2) 5 []) result invalidView run.debited run.ran view' := by
  obtain ⟨result, view', hrun, hsuccess⟩ : ∃ result view', executeTx .idle
      (.basic 0xa1 0 (some 0xb2) 5 []) (first []).header invalidView = .ok (result, view') ∧
      result.success = true := by decide +kernel
  exact ⟨result, view', hrun, hsuccess, value_moved hrun (by decide +kernel) (by decide +kernel)⟩

def selfDestructing : Bytes := [0x5a, 0x60, 0xb2, 0xff]

/-- A creation with a value of 5 whose contract destroys itself succeeds and credits nobody; and a
transfer of `2 ^ 128 + 5` succeeds and moves 5. -/
theorem value_not_credited : (∃ result view', executeTx .idle (.basic 0xa1 0 none 5 selfDestructing)
        (first []).header invalidView = .ok (result, view') ∧
      result.success = true ∧ result.contractAddress = some (createTxAddress 0xa1 0) ∧
      view'.isDeleted (createTxAddress 0xa1 0) = true ∧
      balanceOf view' 0xa1 = 1000000 - result.gasUsed * result.effectivePrice - 5 ∧
      balanceOf view' (createTxAddress 0xa1 0) = 0 ∧ balanceOf view' 0xb2 = 0) ∧
    (∃ result view', executeTx .idle (.basic 0xa1 0 (some 0xb2) 0x100000000000000000000000000000005 [])
        (first []).header invalidView = .ok (result, view') ∧ result.success = true ∧
      balanceOf view' 0xa1 = 1000000 - result.gasUsed * result.effectivePrice - 5 ∧
      balanceOf view' 0xb2 = 5) := by
  decide +kernel

end ZbxChain

/-!
## The gas of a block

The loop over the transactions adds up their gas in a `u64` and writes the counter into each
receipt.
-/

namespace ZbxChain

open List

def receiptsGas (receipts : List TransactionReceipt) : Nat :=
  (receipts.map fun r => r.gasUsed).sum

theorem receiptsGas_append (l l' : List TransactionReceipt) :
    receiptsGas (l ++ l') = receiptsGas l + receiptsGas l' := by
  unfold receiptsGas
  rw [map_append, sum_append]

theorem receiptsGas_singleton (r : TransactionReceipt) : receiptsGas [r] = r.gasUsed := by
  simp [receiptsGas]

def WithinLimits (tx : SignedTransaction) (r : TransactionReceipt) : Prop :=
  tx.tx.intrinsicGas ≤ r.gasUsed ∧ r.gasUsed ≤ tx.tx.gasLimit.toNat

def RunningSums (receipts : List TransactionReceipt) : Prop :=
  ∀ l r rest, receipts = l ++ r :: rest → r.cumulativeGasUsed = receiptsGas l + r.gasUsed

structure GasAccounted (block : Block) (receipts : List TransactionReceipt) (gasUsed : Nat) :
    Prop where
  total : gasUsed = receiptsGas receipts
  running : RunningSums receipts
  within : Forall₂ WithinLimits block.transactions receipts
  limit : gasUsed ≤ block.header.gasLimit.toNat

/-! ## The counter -/

/-- What the loop keeps, with the counter as a `u64`. -/
structure Tallied (txs : List SignedTransaction) (st : BlockState) : Prop where
  counter : st.cumulativeGas = receiptsGas st.receipts % 2 ^ 64
  running : ∀ l r rest, st.receipts = l ++ r :: rest →
    r.cumulativeGasUsed = (receiptsGas l + r.gasUsed) % 2 ^ 64
  within : Forall₂ WithinLimits txs st.receipts

section

variable {E : Engines} {header : BlockHeader} {db : ZbxDb} {tx : SignedTransaction}
  {st st' : BlockState}

theorem intrinsicGas_le_gasCharged {tx : Transaction} (h : tx.intrinsicGas ≤ tx.gasLimit.toNat)
    (used : Nat) : tx.intrinsicGas ≤ gasCharged tx used := by
  have hlt := tx.gasLimit.toNat_lt
  unfold gasCharged Zvm.satU64 Zvm.u64Bound
  omega

theorem withinLimits_gasCharged {view debited : StateView} {used : Nat} {r : TransactionReceipt}
    (hpre : preflight tx view = .ok debited) (hgas : r.gasUsed = gasCharged tx.tx used) :
    WithinLimits tx r := by
  unfold WithinLimits
  rw [hgas]
  exact ⟨intrinsicGas_le_gasCharged (preflight_ok hpre).gas_le used, Nat.min_le_right _ _⟩

theorem executeOne_receipt (h : executeOne E header db st tx = .ok st') :
    ∃ r, st'.receipts = st.receipts ++ [r] ∧ WithinLimits tx r ∧
      st'.cumulativeGas = (st.cumulativeGas + r.gasUsed) % 2 ^ 64 ∧
      r.cumulativeGasUsed = st'.cumulativeGas := by
  obtain ⟨⟨result, mid⟩, hroute, h⟩ := bind_eq_ok.mp h
  cases h
  unfold routeTx at hroute
  split at hroute
  · obtain ⟨⟨result', s⟩, hrun, hroute⟩ := bind_eq_ok.mp hroute
    cases hroute
    obtain ⟨run⟩ := executeStakingTx_ok hrun
    exact ⟨_, rfl, withinLimits_gasCharged run.preflight_eq run.gasUsed_eq, rfl, rfl⟩
  obtain ⟨⟨result', view⟩, hrun, hroute⟩ := bind_eq_ok.mp hroute
  cases hroute
  obtain ⟨run⟩ := executeTx_ok hrun
  exact ⟨_, rfl, withinLimits_gasCharged run.preflight_eq run.gasUsed_eq, rfl, rfl⟩

theorem Tallied.executeOne {txs : List SignedTransaction} (h : Tallied txs st)
    (hone : executeOne E header db st tx = .ok st') : Tallied (txs ++ [tx]) st' := by
  obtain ⟨r, hreceipts, hwithin, hcounter, hcumulative⟩ := executeOne_receipt hone
  have hsum : st'.cumulativeGas = (receiptsGas st.receipts + r.gasUsed) % 2 ^ 64 := by
    rw [hcounter, h.counter, Nat.mod_add_mod]
  refine ⟨?_, ?_, ?_⟩
  · rw [hreceipts, receiptsGas_append, receiptsGas_singleton]
    exact hsum
  · intro l q rest heq
    rw [hreceipts] at heq
    -- the receipt is the new one or stands before it
    rcases eq_nil_or_concat rest with rfl | ⟨front, last, rfl⟩
    · obtain ⟨hl, hq⟩ := append_inj' heq rfl
      obtain rfl := (cons.inj hq).1
      rw [← hl, hcumulative]
      exact hsum
    rw [concat_eq_append, ← cons_append, ← append_assoc] at heq
    obtain ⟨hl, -⟩ := append_inj' heq rfl
    exact h.running l q front hl
  · rw [hreceipts]
    exact rel_append h.within (.cons hwithin .nil)

theorem Tallied.executeTxs {rest txs : List SignedTransaction} (h : Tallied txs st)
    (hrest : executeTxs E header db st rest = .ok st') : Tallied (txs ++ rest) st' := by
  induction rest generalizing txs st with
  | nil =>
    cases hrest
    rw [append_nil]
    exact h
  | cons tx rest ih =>
    obtain ⟨mid, hone, hrest⟩ := bind_eq_ok.mp hrest
    have hmore := ih (h.executeOne hone) hrest
    rw [append_assoc] at hmore
    exact hmore

theorem tallied_start (view : StateView) (vs : Option ValidatorSet) :
    Tallied [] (.start view vs) := by
  refine ⟨rfl, ?_, .nil⟩
  intro l r rest heq
  exact absurd heq.symm (by simp [BlockState.start])

end

/-! ## Blocks -/

theorem executeBlock_tallied {DB : Type} [TrieDB DB] {E : Engines} {block : Block} {db : ZbxDb}
    {vs : Option ValidatorSet} {trieDb : DB} {view : StateView} {result : ExecutionResult}
    (h : executeBlock E block db vs trieDb view = .ok result) :
    ∃ st, Tallied block.transactions st ∧ st.receipts = result.receipts ∧
      st.cumulativeGas = result.gasUsed := by
  obtain ⟨st, root, hbody, -, rfl⟩ := executeBlock_ok h
  obtain ⟨st', htxs, rfl⟩ := executeBody_ok hbody
  exact ⟨st', (tallied_start view vs).executeTxs htxs, rfl, rfl⟩

theorem receiptsGas_within {txs : List SignedTransaction} {receipts : List TransactionReceipt}
    (h : Forall₂ WithinLimits txs receipts) :
    (txs.map fun tx => tx.tx.intrinsicGas).sum ≤ receiptsGas receipts ∧
      receiptsGas receipts ≤ (txs.map fun tx => tx.tx.gasLimit.toNat).sum := by
  induction h with
  | nil => exact ⟨le_rfl, le_rfl⟩
  | cons hwithin _ ih =>
    simp only [map_cons, sum_cons]
    exact ⟨Nat.add_le_add hwithin.1 ih.1, Nat.add_le_add hwithin.2 ih.2⟩

theorem receiptsGas_part {receipts l rest : List TransactionReceipt} {r : TransactionReceipt}
    (h : receipts = l ++ r :: rest) : receiptsGas l + r.gasUsed ≤ receiptsGas receipts := by
  rw [h, append_cons, receiptsGas_append, receiptsGas_append, receiptsGas_singleton]
  exact Nat.le_add_right _ _

theorem Tallied.accounted {block : Block} {st : BlockState} (h : Tallied block.transactions st)
    (hlimit : receiptsGas st.receipts ≤ block.header.gasLimit.toNat) :
    GasAccounted block st.receipts st.cumulativeGas := by
  have hlt := block.header.gasLimit.toNat_lt
  have htotal : st.cumulativeGas = receiptsGas st.receipts := by
    rw [h.counter]
    exact Nat.mod_eq_of_lt (by omega)
  refine ⟨htotal, ?_, h.within, htotal ▸ hlimit⟩
  intro l r rest heq
  have hpart := receiptsGas_part heq
  rw [h.running l r rest heq]
  exact Nat.mod_eq_of_lt (by omega)

/-- A block that is accepted has its gas accounted for just when the receipts are within the
header's limit: always when the transactions' limits are, and never when their intrinsic gas is
not. -/
theorem block_gas_accounted {DB : Type} [TrieDB DB] {E : Engines} {block : Block} {db : ZbxDb}
    {vs : Option ValidatorSet} {trieDb : DB} {view : StateView} {result : ExecutionResult}
    (h : executeBlock E block db vs trieDb view = .ok result) :
    (GasAccounted block result.receipts result.gasUsed ↔
      receiptsGas result.receipts ≤ block.header.gasLimit.toNat) ∧
    ((block.transactions.map fun tx => tx.tx.gasLimit.toNat).sum ≤ block.header.gasLimit.toNat →
      GasAccounted block result.receipts result.gasUsed) ∧
    (GasAccounted block result.receipts result.gasUsed →
      (block.transactions.map fun tx => tx.tx.intrinsicGas).sum ≤ block.header.gasLimit.toNat) ∧
    Forall₂ WithinLimits block.transactions result.receipts := by
  obtain ⟨st, hst, hreceipts, hgas⟩ := executeBlock_tallied h
  rw [← hreceipts, ← hgas]
  obtain ⟨hintrinsic, hlimits⟩ := receiptsGas_within hst.within
  have hof (haccounted : GasAccounted block st.receipts st.cumulativeGas) :
      receiptsGas st.receipts ≤ block.header.gasLimit.toNat :=
    haccounted.total ▸ haccounted.limit
  refine ⟨⟨hof, hst.accounted⟩, ?_, ?_, hst.within⟩
  · intro hsum
    exact hst.accounted (Nat.le_trans hlimits hsum)
  · intro haccounted
    exact Nat.le_trans hintrinsic (hof haccounted)

def payerView : StateView :=
  StateView.new.seedAccount 0xa1 { AccountState.default with balance := 1000000 }

/-- A transfer in a block with room for its gas limit. -/
theorem transfer_gas_accounted : ∃ result, executeBlock .idle
      (.first [.basic 0xa1 0 (some 0xb2) 5 []]) .empty none (⟨[]⟩ : MemoryTrieDB) payerView =
        .ok result ∧
    GasAccounted (.first [.basic 0xa1 0 (some 0xb2) 5 []]) result.receipts result.gasUsed :=
  exists_ok (by decide +kernel) fun _ hrun => (block_gas_accounted hrun).2.1 (by decide +kernel)

def tightBlock : Block :=
  { Block.first [.basic 0xa1 0 (some 0xb2) 5 []] with
    header := { (Block.first []).header with gasLimit := 20000 } }

/-- It is accepted with a transfer, which takes 21000. -/
theorem tight_block_exceeded : tightBlock.header.gasLimit.toNat = 20000 ∧
    ∃ result, executeBlock .idle tightBlock .empty none (⟨[]⟩ : MemoryTrieDB) payerView =
      .ok result ∧ result.gasUsed = 21000 := by
  decide +kernel

end ZbxChain

import ZbxChain.Execution.Reach
import ZbxChain.Lib.FiniteMap

/-!
# The supply behind a view

`heldSupply stored view` is the sum of all balances that storage would hold if the changes
of the view were written over `stored`. No host call raises it (`answer_heldSupply_le`), a
credit raises it by at most its amount, and a deletion raises it when the balance that
storage still has for the account is above the one that the deletion drops.
-/

namespace ZbxChain

open FiniteMap ZvmStateAccess AccountState Interaction

def AccountState.wei (a : AccountState) : Nat := a.balance.toNat

theorem AccountState.wei_setBalanceU128_le (a : AccountState) (amount : Nat) :
    (a.setBalanceU128 amount).wei ≤ amount := by
  exact Nat.mod_le _ _

def supply (accounts : Map Address AccountState) : Nat := total wei accounts

namespace StateView

variable (stored : Map Address AccountState) (view : StateView)

def held : Map Address AccountState :=
  insertAll stored view.diffs.accounts.entries

def heldSupply : Nat :=
  supply (held stored view)

def heldBalance (addr : Address) : Nat :=
  weightAt wei (held stored view) addr

def SeededFrom : Prop :=
  ∀ addr acct, view.base.lookup addr = some acct → acct = (stored.lookup addr).getD .default

variable {stored : Map Address AccountState} {view view' : StateView}

theorem SeededFrom.of_base_eq (h : SeededFrom stored view) (hbase : view'.base = view.base) :
    SeededFrom stored view' := by
  intro addr acct hlookup
  rw [hbase] at hlookup
  exact h addr acct hlookup

theorem Reaches.seededFrom (h : Reaches view view') (hview : SeededFrom stored view) :
    SeededFrom stored view' :=
  hview.of_base_eq h.base_eq

theorem SeededFrom.balance_le (h : SeededFrom stored view) (addr : Address) :
    (view.getAccount addr).wei ≤ heldBalance stored view addr := by
  unfold getAccount record heldBalance weightAt held
  rw [lookup_insertAll_entries]
  split
  · exact Nat.zero_le _
  cases hdiff : view.diffs.accounts.lookup addr with
  | some acct => exact le_rfl
  | none =>
    cases hbase : view.base.lookup addr with
    | none => exact Nat.zero_le _
    | some acct =>
      rw [h addr acct hbase]
      cases stored.lookup addr <;> exact le_rfl

theorem SeededFrom.balanceOf_le (h : SeededFrom stored view) (addr : Address) :
    balanceOf view addr ≤ heldBalance stored view addr :=
  Nat.le_trans (balanceU128_le _) (h.balance_le addr)

/-! ## Writes -/

variable (stored view) in
theorem heldSupply_setAccount (addr : Address) (state : AccountState) :
    heldSupply stored (view.setAccount addr state) + heldBalance stored view addr =
      heldSupply stored view + state.wei := by
  unfold setAccount
  split
  · exact total_insertAll_insert _ stored view.diffs.accounts addr state
  have hwei : (guardAccount (view.record addr) state).wei = state.wei :=
    congrArg BitVec.toNat (guardAccount_balance _ _)
  rw [← hwei]
  exact total_insertAll_insert _ stored view.diffs.accounts addr _

variable (stored view) in
theorem heldSupply_selfdestruct (addr : Address) :
    heldSupply stored (view.selfdestruct addr) + heldBalance stored view addr =
      heldSupply stored view + weightAt wei stored addr :=
  total_insertAll_erase _ stored view.diffs.accounts addr

variable (h : SeededFrom stored view)
include h

theorem SeededFrom.setAccount_le_add {addr : Address} {state : AccountState} {amount : Nat}
    (hwei : state.wei ≤ (view.getAccount addr).wei + amount) :
    heldSupply stored (view.setAccount addr state) ≤ heldSupply stored view + amount := by
  have hset := heldSupply_setAccount stored view addr state
  have hle := h.balance_le addr
  omega

theorem SeededFrom.setAccount_le {addr : Address} {state : AccountState}
    (hwei : state.wei = (view.getAccount addr).wei) :
    heldSupply stored (view.setAccount addr state) ≤ heldSupply stored view := by
  have hle : state.wei ≤ (view.getAccount addr).wei + 0 := Nat.le_of_eq hwei
  exact h.setAccount_le_add hle

theorem SeededFrom.setBalance_le (addr : Address) (wei : Nat) :
    heldSupply stored (setBalance view addr wei) + balanceOf view addr ≤
      heldSupply stored view + wei := by
  have hset := heldSupply_setAccount stored view addr ((view.getAccount addr).setBalanceU128 wei)
  have hle := h.balanceOf_le addr
  have hwei := (view.getAccount addr).wei_setBalanceU128_le wei
  have hdef : setBalance view addr wei =
      view.setAccount addr ((view.getAccount addr).setBalanceU128 wei) := rfl
  rw [hdef]
  omega

theorem SeededFrom.credit_le (addr : Address) (amount : Nat) :
    heldSupply stored (credit view addr amount) ≤ heldSupply stored view + amount := by
  have hset := h.setBalance_le addr (satAddU128 (balanceOf view addr) amount)
  have hsat := satAddU128_le (balanceOf view addr) amount
  unfold credit
  omega

theorem SeededFrom.pay_le {src dst : Address} {amount : Nat}
    (hamount : amount ≤ balanceOf view src) :
    heldSupply stored (credit (setBalance view src (balanceOf view src - amount)) dst amount) ≤
      heldSupply stored view := by
  have hdebit := h.setBalance_le src (balanceOf view src - amount)
  have hcredit := ((reaches_setBalance view src (balanceOf view src - amount)).seededFrom
    h).credit_le dst amount
  omega

end StateView

open StateView

variable {stored : Map Address AccountState}

/-! ## Host calls -/

namespace ProductionZvmHost

variable {host : ProductionZvmHost StateView}

theorem transfer_heldSupply_le (h : SeededFrom stored host.state) (src dst : Address)
    (amount : Nat) :
    heldSupply stored (host.transfer src dst amount).2.state ≤ heldSupply stored host.state := by
  by_cases hlt : host.balance src < amount
  · rw [transfer_of_lt hlt]
  · rw [transfer_of_le (Nat.le_of_not_lt hlt)]
    exact h.pay_le (Nat.le_of_not_lt hlt)

theorem answer_heldSupply_le (h : SeededFrom stored host.state) (c : Zvm.HostCall) :
    heldSupply stored (answer c host).2.state ≤ heldSupply stored host.state := by
  by_cases hc : c.writes = false
  · rw [answer_of_not_writes hc]
  cases c <;> first | exact absurd rfl hc | skip
  case storageStore addr key value => exact le_rfl
  case transfer src dst amount => exact transfer_heldSupply_le h src dst amount
  case incNonce addr => exact h.setAccount_le rfl
  case setCode addr code =>
    have hseed : SeededFrom stored (host.state.seedCode (keccak256 code) code) := h.of_base_eq rfl
    exact hseed.setAccount_le rfl
  case burnZbx addr amount =>
    show heldSupply stored (host.burnZbx addr amount).2.state ≤ _
    by_cases hlt : host.balance addr < amount
    · rw [burnZbx_of_lt hlt]
    rw [burnZbx_of_le (Nat.le_of_not_lt hlt)]
    have hset := h.setBalance_le addr (host.balance addr - amount)
    have hdef : host.balance addr = balanceOf host.state addr := rfl
    dsimp only
    omega
  case transientStore addr key value => exact le_rfl
  case markCreatedThisTx addr => exact le_rfl
  case selfdestruct contract beneficiary =>
    show heldSupply stored (host.selfdestruct contract beneficiary).state ≤ _
    unfold selfdestruct
    dsimp only
    split
    · exact transfer_heldSupply_le h contract beneficiary _
    · exact le_rfl
  case emitLog addr topics data => exact le_rfl

theorem run_heldSupply_le {α : Type} (h : SeededFrom stored host.state) (p : Zvm.HostM α) :
    SeededFrom stored (run handle p host).2.state ∧
      heldSupply stored (run handle p host).2.state ≤ heldSupply stored host.state :=
  run_invariant (P := fun host' : ProductionZvmHost StateView =>
    SeededFrom stored host'.state ∧ heldSupply stored host'.state ≤ heldSupply stored host.state)
    (fun q _ host' hP => ⟨(answer_writes host' q.call).reaches.seededFrom hP.1,
      Nat.le_trans (answer_heldSupply_le hP.1 q.call) hP.2⟩) ⟨h, le_rfl⟩

end ProductionZvmHost

/-! ## Deletions -/

structure Deletion where
  view : StateView
  addr : Address

def Deletion.Covered (stored : Map Address AccountState) (d : Deletion) : Prop :=
  weightAt wei stored d.addr ≤ heldBalance stored d.view d.addr

/-- The deletions of `drainDestructs`. -/
def deletions (created : Finset Address) : List (Address × Address) → StateView → List Deletion
  | [], _ => []
  | d :: rest, view =>
    if d.1 ∈ created then ⟨view, d.1⟩ :: deletions created rest (view.selfdestruct d.1)
    else deletions created rest view

theorem drainDestructs_heldSupply_le {created : Finset Address}
    {pending : List (Address × Address)} {view : StateView}
    (hcovered : ∀ d ∈ deletions created pending view, d.Covered stored) :
    heldSupply stored (drainDestructs created pending view) ≤ heldSupply stored view := by
  induction pending generalizing view with
  | nil => exact le_rfl
  | cons d rest ih =>
    unfold deletions at hcovered
    unfold drainDestructs
    rw [List.foldl_cons]
    split at hcovered
    · rename_i hmem
      rw [if_pos hmem]
      have hfirst : weightAt wei stored d.1 ≤ heldBalance stored view d.1 :=
        hcovered _ List.mem_cons_self
      have hdelete := heldSupply_selfdestruct stored view d.1
      have hrest : heldSupply stored (drainDestructs created rest (view.selfdestruct d.1)) ≤
          heldSupply stored (view.selfdestruct d.1) :=
        ih fun d' hd' => hcovered d' (List.mem_cons_of_mem _ hd')
      unfold drainDestructs at hrest
      omega
    · rename_i hmem
      rw [if_neg hmem]
      exact ih hcovered

/-! ## Transactions -/

section

variable {E : Engines} {tx : SignedTransaction} {header : BlockHeader} {target : CallTarget}
  {view view' : StateView}

theorem preflight_heldSupply_le (h : SeededFrom stored view)
    (hfits : tx.tx.maxCost + tx.tx.valueU128 < 2 ^ 128) (hpre : preflight tx view = .ok view') :
    heldSupply stored view' + (tx.tx.maxCost + tx.tx.valueU128) ≤ heldSupply stored view := by
  have spec := preflight_ok hpre
  have hcost : upfrontCost tx.tx = tx.tx.maxCost + tx.tx.valueU128 := Nat.mod_eq_of_lt hfits
  have hsat : satAddU128 tx.tx.maxCost tx.tx.valueU128 = tx.tx.maxCost + tx.tx.valueU128 := by
    unfold satAddU128
    omega
  have hle := h.balanceOf_le tx.sender
  have hbal : satAddU128 tx.tx.maxCost tx.tx.valueU128 ≤ balanceOf view tx.sender := spec.cost_le
  have hlt : balanceOf view tx.sender < 2 ^ 128 := balanceU128_lt _
  obtain ⟨paid, hdebited, hwei⟩ : ∃ paid, view' = view.setAccount tx.sender paid ∧
      paid.wei = balanceOf view tx.sender - upfrontCost tx.tx :=
    ⟨_, spec.debited, balance_setBalanceU128 (view.getAccount tx.sender)
      (Nat.lt_of_le_of_lt (Nat.sub_le _ _) hlt)⟩
  have hset := heldSupply_setAccount stored view tx.sender paid
  rw [hdebited]
  omega

theorem deployCode_heldSupply_le (h : SeededFrom stored view) (addr : Address) (vm : VmKind)
    (code : Bytes) : heldSupply stored (deployCode view addr vm code) ≤ heldSupply stored view := by
  unfold deployCode
  split
  · exact le_rfl
  have hseed : SeededFrom stored (view.seedCode (keccak256 code) code) := h.of_base_eq rfl
  refine hseed.setAccount_le ?_
  split <;> rfl

theorem resolveTarget_heldSupply_le (h : SeededFrom stored view) (tx : SignedTransaction) :
    heldSupply stored (resolveTarget tx view).2 ≤ heldSupply stored view := by
  unfold resolveTarget
  split
  · exact deployCode_heldSupply_le h _ _ _
  · dsimp only
    split <;> exact le_rfl

def zvmDeletions (E : Engines) (tx : SignedTransaction) (header : BlockHeader)
    (target : CallTarget) (view : StateView) : List Deletion :=
  match run ProductionZvmHost.handle
      (Zvm.interpret E.zvm (zvmContext tx header target)) (txHost header target view) with
  | (none, _) => []
  | (some result, host) =>
    if result.status = .success then
      deletions host.createdThisTx host.pendingDestructs host.state
    else []

theorem runZvm_heldSupply_le {outcome : Outcome} (h : SeededFrom stored view)
    (hcovered : ∀ d ∈ zvmDeletions E tx header target view, d.Covered stored)
    (hrun : runZvm E tx header target view = .ok (outcome, view')) :
    heldSupply stored view' ≤ heldSupply stored view := by
  have hstate := txHost_state header target view
  have hseeded : SeededFrom stored (txHost header target view).state := hstate.symm ▸ h
  obtain ⟨-, hhost⟩ := ProductionZvmHost.run_heldSupply_le hseeded
    (Zvm.interpret E.zvm (zvmContext tx header target))
  unfold zvmDeletions at hcovered
  unfold runZvm at hrun
  split at hrun
  · cases hrun
  rename_i result host heq
  rw [heq] at hcovered hhost
  rw [hstate] at hhost
  cases hrun
  dsimp only at hcovered hhost ⊢
  split
  · rename_i hsuccess
    rw [if_pos hsuccess] at hcovered
    exact Nat.le_trans (drainDestructs_heldSupply_le hcovered) hhost
  · exact hhost

def targetDeletions (E : Engines) (tx : SignedTransaction) (header : BlockHeader)
    (target : CallTarget) (view : StateView) : List Deletion :=
  if tx.tx.dest.isSome ∧ isEvmPrecompile target.callee then []
  else if target.isPureValueTransfer ∨ target.codeToRun = [] then []
  else if target.calleeVm = .zvm then zvmDeletions E tx header target view
  else []

theorem runTarget_heldSupply_le {outcome : Outcome} (h : SeededFrom stored view)
    (hcovered : ∀ d ∈ targetDeletions E tx header target view, d.Covered stored)
    (hrun : runTarget E tx header target view = .ok (outcome, view')) :
    heldSupply stored view' ≤ heldSupply stored view := by
  unfold targetDeletions at hcovered
  unfold runTarget at hrun
  split_ifs at hrun hcovered
  · cases hrun
    exact le_rfl
  · cases hrun
    exact le_rfl
  · exact runZvm_heldSupply_le h hcovered hrun
  · cases hrun
    exact le_rfl

theorem finalizeCreate_heldSupply_le (h : SeededFrom stored view) (addr : Address) (vm : VmKind)
    (value : Nat) :
    heldSupply stored (finalizeCreate addr vm value view) ≤ heldSupply stored view + value := by
  unfold finalizeCreate
  split
  · exact Nat.le_add_right _ _
  refine h.setAccount_le_add ?_
  have hfunded : (if 0 < value then (view.getAccount addr).setBalanceU128
      (satAddU128 (view.getAccount addr).balanceU128 value) else view.getAccount addr).wei ≤
        (view.getAccount addr).wei + value := by
    split
    · have hsat := satAddU128_le (view.getAccount addr).balanceU128 value
      have hle := (view.getAccount addr).balanceU128_le
      refine Nat.le_trans (wei_setBalanceU128_le _ _) ?_
      unfold wei
      omega
    · exact Nat.le_add_right _ _
  split
  · exact hfunded
  · exact hfunded

theorem settleValue_heldSupply_le (h : SeededFrom stored view) (tx : SignedTransaction)
    (target : CallTarget) (success : Bool) :
    heldSupply stored (settleValue tx target success view) ≤
      heldSupply stored view + tx.tx.valueU128 := by
  unfold settleValue
  split
  · split
    · exact h.credit_le _ _
    · exact finalizeCreate_heldSupply_le h _ _ _
    · exact Nat.le_add_right _ _
  · exact h.credit_le _ _

theorem settleStakingValue_heldSupply_le (h : SeededFrom stored view) (tx : SignedTransaction)
    (success : Bool) : heldSupply stored (settleStakingValue tx success view) ≤
      heldSupply stored view + tx.tx.valueU128 := by
  unfold settleStakingValue
  split_ifs
  · exact h.credit_le _ _
  · exact Nat.le_add_right _ _
  · exact h.credit_le _ _

variable (tx header) in
theorem refund_add_tip_le (used : Nat) :
    let price := tx.effectiveGasPrice header.baseFeePerGas.toNat
    (tx.tx.maxCost - gasCharged tx.tx used * price) +
      (price - header.baseFeePerGas.toNat) * gasCharged tx.tx used ≤ tx.tx.maxCost := by
  intro price
  have hgas : gasCharged tx.tx used ≤ tx.tx.gasLimit.toNat := Nat.min_le_right _ _
  have htip : (price - header.baseFeePerGas.toNat) * gasCharged tx.tx used ≤ tx.tx.maxCost := by
    refine Nat.mul_le_mul ?_ hgas
    show header.baseFeePerGas.toNat + min _ _ - header.baseFeePerGas.toNat ≤ _
    omega
  have hprice : (price - header.baseFeePerGas.toNat) * gasCharged tx.tx used ≤
      gasCharged tx.tx used * price := by
    rw [Nat.mul_comm]
    exact Nat.mul_le_mul_left _ (Nat.sub_le _ _)
  omega

def txDeletions (E : Engines) (tx : SignedTransaction) (header : BlockHeader)
    (view : StateView) : List Deletion :=
  match preflight tx view with
  | .error _ => []
  | .ok debited =>
    targetDeletions E tx header (resolveTarget tx debited).1 (resolveTarget tx debited).2

theorem TxRun.heldSupply_le {result : TxResult} (run : TxRun E tx header view result view')
    (h : SeededFrom stored view) (hfits : tx.tx.maxCost + tx.tx.valueU128 < 2 ^ 128)
    (hcovered : ∀ d ∈ txDeletions E tx header view, d.Covered stored) :
    heldSupply stored view' + validatorFee header result ≤ heldSupply stored view := by
  unfold txDeletions at hcovered
  rw [run.preflight_eq] at hcovered
  have hdebited := (preflight_reaches run.preflight_eq).seededFrom h
  have hresolved := (resolveTarget_reaches tx run.debited).seededFrom hdebited
  have hran := (runTarget_reaches run.run_eq).seededFrom hresolved
  have hpre := preflight_heldSupply_le h hfits run.preflight_eq
  have hresolve := resolveTarget_heldSupply_le hdebited tx
  have hrun := runTarget_heldSupply_le hresolved hcovered run.run_eq
  have hrefund := hran.credit_le tx.sender
    (tx.tx.maxCost - result.gasUsed * result.effectivePrice)
  have hsettle := settleValue_heldSupply_le ((reaches_credit run.ran tx.sender
    (tx.tx.maxCost - result.gasUsed * result.effectivePrice)).seededFrom hran) tx
    (resolveTarget tx run.debited).1 result.success
  have hgas := refund_add_tip_le tx header run.outcome.gasUsed
  rw [run.settled_eq]
  unfold validatorFee refundGas
  rw [run.gasUsed_eq, run.price_eq] at *
  omega

theorem AtMostPaid.heldSupply_le {recipient : Address} (hpaid : AtMostPaid recipient view view')
    (h : SeededFrom stored view) : heldSupply stored view' ≤ heldSupply stored view := by
  rcases hpaid with rfl | ⟨amount, hamount, rfl⟩
  · exact le_rfl
  · exact h.pay_le hamount

theorem StakingRun.heldSupply_le {result : TxResult}
    (run : StakingRun tx header view result view') (h : SeededFrom stored view)
    (hfits : tx.tx.maxCost + tx.tx.valueU128 < 2 ^ 128) :
    heldSupply stored view' + validatorFee header result ≤ heldSupply stored view := by
  have hdebited := (preflight_reaches run.preflight_eq).seededFrom h
  have hpaid := run.paid_spec.reaches.seededFrom hdebited
  have hpre := preflight_heldSupply_le h hfits run.preflight_eq
  have hcall := run.paid_spec.heldSupply_le hdebited
  have hrefund := hpaid.credit_le tx.sender
    (tx.tx.maxCost - result.gasUsed * result.effectivePrice)
  have hsettle := settleStakingValue_heldSupply_le ((reaches_credit run.paid tx.sender
    (tx.tx.maxCost - result.gasUsed * result.effectivePrice)).seededFrom hpaid) tx result.success
  have hgas := refund_add_tip_le tx header run.used
  rw [run.settled_eq]
  unfold validatorFee refundGas
  rw [run.gasUsed_eq, run.price_eq] at *
  omega

end

/-! ## Blocks -/

variable {E : Engines} {header : BlockHeader} {db : ZbxDb} {st st' : BlockState}

/-- The deletions of a block's transactions, each with the view in which it is made. -/
def blockDeletions (E : Engines) (header : BlockHeader) (db : ZbxDb) :
    BlockState → List SignedTransaction → List Deletion :=
  seenInBlock (fun tx view => txDeletions E tx header view) E header db

theorem executeOne_heldSupply_le {tx : SignedTransaction} (h : SeededFrom stored st.view)
    (hfits : tx.tx.maxCost + tx.tx.valueU128 < 2 ^ 128) (hcovered : isStakingRound tx st = false →
      ∀ d ∈ txDeletions E tx header st.view, d.Covered stored)
    (hone : executeOne E header db st tx = .ok st') :
    heldSupply stored st'.view ≤ heldSupply stored st.view := by
  obtain ⟨result, view, hrun, hview⟩ := executeOne_ok hone
  rw [hview]
  have htx : SeededFrom stored view ∧
      heldSupply stored view + validatorFee header result ≤ heldSupply stored st.view := by
    rcases hrun with ⟨hround, ⟨run⟩⟩ | ⟨-, ⟨run⟩⟩
    · exact ⟨run.reaches.seededFrom h, run.heldSupply_le h hfits (hcovered hround)⟩
    · exact ⟨run.reaches.seededFrom h, run.heldSupply_le h hfits⟩
  have htip := htx.1.credit_le header.coinbase (validatorFee header result)
  omega

theorem executeTxs_heldSupply_le {txs : List SignedTransaction} (h : SeededFrom stored st.view)
    (hfits : ∀ tx ∈ txs, tx.tx.maxCost + tx.tx.valueU128 < 2 ^ 128)
    (hcovered : ∀ d ∈ blockDeletions E header db st txs, d.Covered stored)
    (htxs : executeTxs E header db st txs = .ok st') :
    heldSupply stored st'.view ≤ heldSupply stored st.view := by
  induction txs generalizing st with
  | nil =>
    cases htxs
    exact le_rfl
  | cons tx rest ih =>
    obtain ⟨mid, hone, hrest⟩ := bind_eq_ok.mp htxs
    have hfirst := executeOne_heldSupply_le h (hfits tx List.mem_cons_self)
      (fun hround d hd => hcovered d (mem_seenInBlock_first hround hd)) hone
    have hlater := ih ((executeOne_reaches hone).seededFrom h)
      (fun tx' htx' => hfits tx' (List.mem_cons_of_mem _ htx'))
      (fun d hd => hcovered d (mem_seenInBlock_rest hone hd)) hrest
    exact Nat.le_trans hlater hfirst

theorem payReward_heldSupply_le {view : StateView} (h : SeededFrom stored view)
    (header : BlockHeader) : heldSupply stored (payReward header view) ≤
      heldSupply stored view + blockRewardAt header.number.toNat := by
  unfold payReward
  dsimp only
  split
  · exact h.credit_le _ _
  · exact Nat.le_add_right _ _

end ZbxChain

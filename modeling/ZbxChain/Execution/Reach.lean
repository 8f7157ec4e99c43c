import ZbxChain.Execution.Executor
import ZbxChain.Staking.Effects

/-!
# What executing a block can do to a view

A block changes its view by writes of accounts, storage and code, by deletions and by
moving logs (`executeBody_reaches`), whatever its transactions are. Facts about the view
after a block that each of these steps preserves follow from this.
-/

namespace ZbxChain

open ZvmStateAccess

namespace StateView

def setLogs (view : StateView) (logs : List Log) : StateView :=
  { view with diffs := { view.diffs with logs := logs } }

inductive Reaches (view : StateView) : StateView → Prop
  | refl : Reaches view view
  | account {view'} (addr : Address) (state : AccountState) (h : Reaches view view') :
      Reaches view (view'.setAccount addr state)
  | storage {view'} (addr : Address) (slot value : H256) (h : Reaches view view') :
      Reaches view (view'.setStorage addr slot value)
  | code {view'} (codeHash : H256) (code : Bytes) (h : Reaches view view') :
      Reaches view (view'.seedCode codeHash code)
  | delete {view'} (addr : Address) (h : Reaches view view') :
      Reaches view (view'.selfdestruct addr)
  | logs {view'} (logs : List Log) (h : Reaches view view') : Reaches view (view'.setLogs logs)

variable {view view' view'' : StateView}

theorem Reaches.trans (h : Reaches view view') (h' : Reaches view' view'') :
    Reaches view view'' := by
  induction h' with
  | refl => exact h
  | account addr state _ ih => exact .account addr state ih
  | storage addr slot value _ ih => exact .storage addr slot value ih
  | code codeHash code _ ih => exact .code codeHash code ih
  | delete addr _ ih => exact .delete addr ih
  | logs logs _ ih => exact .logs logs ih

theorem Writes.reaches (h : Writes view view') : Reaches view view' := by
  induction h with
  | refl => exact .refl
  | account addr state _ ih => exact .account addr state ih
  | storage addr slot value _ ih => exact .storage addr slot value ih
  | code codeHash code _ ih => exact .code codeHash code ih
  | log log _ ih => exact .logs _ ih

theorem reaches_setBalance (view : StateView) (addr : Address) (wei : Nat) :
    Reaches view (setBalance view addr wei) := .account addr _ .refl

theorem reaches_credit (view : StateView) (addr : Address) (amount : Nat) :
    Reaches view (credit view addr amount) := reaches_setBalance view addr _

theorem Reaches.base_eq (h : Reaches view view') : view'.base = view.base := by
  induction h with
  | refl => rfl
  | account addr state _ ih => exact (sameStores_setAccount _ _ _).base.trans ih
  | storage _ _ _ _ ih | code _ _ _ ih | delete _ _ ih | logs _ _ ih => exact ih

def Tidy (view : StateView) : Prop :=
  ∀ addr ∈ view.toDelete, view.diffs.accounts.lookup addr = none

theorem Tidy.setAccount (h : Tidy view) (addr : Address) (state : AccountState) :
    Tidy (view.setAccount addr state) := by
  intro other hother
  unfold StateView.setAccount at hother ⊢
  split at hother
  · rename_i hdel
    obtain ⟨hne, hmem⟩ := Finset.mem_erase.mp hother
    rw [if_pos hdel]
    exact (AList.lookup_insert_ne hne).trans (h other hmem)
  rename_i hdel
  rw [if_neg hdel]
  have hne : other ≠ addr := fun heq => hdel (heq ▸ hother)
  exact (AList.lookup_insert_ne hne).trans (h other hother)

theorem Tidy.selfdestruct (h : Tidy view) (addr : Address) : Tidy (view.selfdestruct addr) := by
  intro other hother
  by_cases heq : other = addr
  · rw [heq]
    exact AList.lookup_erase addr _
  · exact (AList.lookup_erase_ne heq).trans
      (h other ((Finset.mem_insert.mp hother).resolve_left heq))

theorem Reaches.tidy (h : Reaches view view') (hview : Tidy view) : Tidy view' := by
  induction h with
  | refl => exact hview
  | account addr state _ ih => exact ih.setAccount addr state
  | delete addr _ ih => exact ih.selfdestruct addr
  | storage _ _ _ _ ih | code _ _ _ ih | logs _ _ ih => exact ih

end StateView

open StateView

/-! ## Transactions -/

structure PreflightSpec (tx : SignedTransaction) (view view' : StateView) : Prop where
  nonce_eq : tx.tx.nonce = (view.getAccount tx.sender).nonce
  cost_le : satAddU128 tx.tx.maxCost tx.tx.valueU128 ≤ (view.getAccount tx.sender).balanceU128
  gas_le : tx.tx.intrinsicGas ≤ tx.tx.gasLimit.toNat
  nonce_lt : (view.getAccount tx.sender).nonce.toNat + 1 < 2 ^ 64
  debited : view' = view.setAccount tx.sender
    { (view.getAccount tx.sender).setBalanceU128
        ((view.getAccount tx.sender).balanceU128 - upfrontCost tx.tx) with
      nonce := (view.getAccount tx.sender).nonce + 1 }

variable {block : Block} {header : BlockHeader} {st st' : BlockState} {target : CallTarget}
  {E : Engines} {rest : List SignedTransaction} {vs : Option ValidatorSet} {outcome : Outcome}
  {tx : SignedTransaction} {view view' : StateView} {result : TxResult} {α : Type}
  {see : SignedTransaction → StateView → List α} {db : ZbxDb} {a : α}

theorem preflight_ok (h : preflight tx view = .ok view') : PreflightSpec tx view view' := by
  unfold preflight at h
  dsimp only at h
  split_ifs at h with hnonce hbal hgas
  rw [not_not] at hnonce
  unfold AccountState.incrementNonce at h
  split at h
  · cases h
  rename_i sender hinc
  split_ifs at hinc with hlt
  cases hinc
  cases h
  exact ⟨hnonce, Nat.le_of_not_lt hbal, Nat.le_of_not_lt hgas, hlt, rfl⟩

theorem preflight_reaches (h : preflight tx view = .ok view') : Reaches view view' := by
  rw [(preflight_ok h).debited]
  exact .account _ _ .refl

theorem deployCode_reaches (view : StateView) (addr : Address) (vm : VmKind) (code : Bytes) :
    Reaches view (deployCode view addr vm code) := by
  unfold deployCode
  split
  · exact .refl
  · exact .account _ _ (.code _ _ .refl)

variable (tx view) in
theorem resolveTarget_reaches : Reaches view (resolveTarget tx view).2 := by
  unfold resolveTarget
  split
  · exact deployCode_reaches _ _ _ _
  · dsimp only
    split <;> exact .refl

theorem drainDestructs_reaches (created : Finset Address) (pending : List (Address × Address))
    (view : StateView) : Reaches view (drainDestructs created pending view) := by
  induction pending generalizing view with
  | nil => exact .refl
  | cons d rest ih =>
    refine .trans ?_ (ih _)
    dsimp only
    split
    · exact .delete _ .refl
    · exact .refl

variable (header target view) in
theorem txHost_state : (txHost header target view).state = view := by
  unfold txHost
  split <;> rfl

theorem runZvm_reaches (h : runZvm E tx header target view = .ok (outcome, view')) :
    Reaches view view' := by
  unfold runZvm at h
  split at h
  · cases h
  rename_i result host hrun
  cases h
  have hhost : Reaches view host.state := by
    have hw := (txHost header target view).run_writes
      (Zvm.interpret E.zvm (zvmContext tx header target))
    rw [hrun, txHost_state] at hw
    exact hw.reaches
  refine .logs _ (hhost.trans ?_)
  split
  · exact drainDestructs_reaches _ _ _
  · exact .refl

theorem runTarget_reaches (h : runTarget E tx header target view = .ok (outcome, view')) :
    Reaches view view' := by
  unfold runTarget at h
  split_ifs at h
  · cases h
    exact .refl
  · cases h
    exact .refl
  · exact runZvm_reaches h
  · cases h
    exact .refl

def targetRequests (E : Engines) (tx : SignedTransaction) (header : BlockHeader)
    (target : CallTarget) (view : StateView) : List Zvm.Request :=
  if tx.tx.dest.isSome ∧ isEvmPrecompile target.callee then []
  else if target.isPureValueTransfer ∨ target.codeToRun = [] then []
  else if target.calleeVm = .zvm then
    Interaction.requests ProductionZvmHost.handle
      (Zvm.interpret E.zvm (zvmContext tx header target)) (txHost header target view)
  else []

def txRequests (E : Engines) (tx : SignedTransaction) (header : BlockHeader)
    (view : StateView) : List Zvm.Request :=
  match preflight tx view with
  | .error _ => []
  | .ok debited =>
    targetRequests E tx header (resolveTarget tx debited).1 (resolveTarget tx debited).2

theorem settleValue_reaches (tx : SignedTransaction) (target : CallTarget) (success : Bool)
    (view : StateView) : Reaches view (settleValue tx target success view) := by
  unfold settleValue
  split
  · split
    · exact reaches_credit _ _ _
    · unfold finalizeCreate
      split
      · exact .refl
      · exact .account _ _ .refl
    · exact .refl
  · exact reaches_credit _ _ _

structure TxRun (E : Engines) (tx : SignedTransaction) (header : BlockHeader)
    (view : StateView) (result : TxResult) (view' : StateView) where
  debited : StateView
  outcome : Outcome
  ran : StateView
  preflight_eq : preflight tx view = .ok debited
  run_eq : runTarget E tx header (resolveTarget tx debited).1 (resolveTarget tx debited).2 =
    .ok (outcome, ran)
  gasUsed_eq : result.gasUsed = gasCharged tx.tx outcome.gasUsed
  price_eq : result.effectivePrice = tx.effectiveGasPrice header.baseFeePerGas.toNat
  success_eq : result.success = decide (outcome.status = .succeeded)
  settled_eq : view' = settleValue tx (resolveTarget tx debited).1 result.success
    (refundGas tx result.gasUsed result.effectivePrice ran)

theorem executeTx_ok (h : executeTx E tx header view = .ok (result, view')) :
    Nonempty (TxRun E tx header view result view') := by
  obtain ⟨debited, hpre, h⟩ := bind_eq_ok.mp h
  obtain ⟨⟨outcome, ran⟩, hrun, h⟩ := bind_eq_ok.mp h
  cases h
  exact ⟨⟨debited, outcome, ran, hpre, hrun, rfl, rfl, rfl, rfl⟩⟩

theorem TxRun.reaches (run : TxRun E tx header view result view') : Reaches view view' := by
  rw [run.settled_eq]
  exact (((preflight_reaches run.preflight_eq).trans (resolveTarget_reaches tx run.debited)).trans
    (runTarget_reaches run.run_eq)).trans
      ((reaches_credit _ _ _).trans (settleValue_reaches _ _ _ _))

/-! ## Staking transactions -/

variable (E tx) in
theorem runStakingCall_pays (header : BlockHeader) (db : ZbxDb) (s : StakingState StateView) :
    AtMostPaid tx.sender s.balances (runStakingCall E tx header db s).2.balances := by
  unfold runStakingCall
  split
  · exact .inl rfl
  · exact .inl rfl
  rename_i call _ _
  have h := dispatchStakingTx_pays E.bls call tx.sender tx.tx.valueU128 header.number db s
  split
  all_goals
    rename_i hrun
    rwa [hrun] at h

structure StakingRun (tx : SignedTransaction) (header : BlockHeader) (view : StateView)
    (result : TxResult) (view' : StateView) where
  debited : StateView
  used : Nat
  paid : StateView
  preflight_eq : preflight tx view = .ok debited
  paid_spec : AtMostPaid tx.sender debited paid
  gasUsed_eq : result.gasUsed = gasCharged tx.tx used
  price_eq : result.effectivePrice = tx.effectiveGasPrice header.baseFeePerGas.toNat
  settled_eq : view' = settleStakingValue tx result.success
    (refundGas tx result.gasUsed result.effectivePrice paid)

theorem executeStakingTx_ok {vs : ValidatorSet} {delta : StakingDelta} {s : StakingState StateView}
    (h : executeStakingTx E tx header db vs delta view = .ok (result, s)) :
    Nonempty (StakingRun tx header view result s.balances) := by
  obtain ⟨debited, hpre, h⟩ := bind_eq_ok.mp h
  cases h
  exact ⟨⟨debited, _, _, hpre, runStakingCall_pays E tx header db ⟨vs, delta, debited⟩, rfl, rfl,
    rfl⟩⟩

theorem AtMostPaid.reaches {recipient : Address} (h : AtMostPaid recipient view view') :
    Reaches view view' := by
  rcases h with rfl | ⟨amount, _, rfl⟩
  · exact .refl
  · exact (reaches_setBalance _ _ _).trans (reaches_setBalance _ _ _)

theorem settleStakingValue_reaches (tx : SignedTransaction) (success : Bool) (view : StateView) :
    Reaches view (settleStakingValue tx success view) := by
  unfold settleStakingValue
  split_ifs
  · exact reaches_credit _ _ _
  · exact .refl
  · exact reaches_credit _ _ _

theorem StakingRun.reaches (run : StakingRun tx header view result view') : Reaches view view' := by
  rw [run.settled_eq]
  exact ((preflight_reaches run.preflight_eq).trans run.paid_spec.reaches).trans
    ((reaches_credit _ _ _).trans (settleStakingValue_reaches _ _ _))

/-! ## Blocks -/

def isStakingRound (tx : SignedTransaction) (st : BlockState) : Bool :=
  isStakingDestination tx.tx.dest && st.vs.isSome

theorem isStakingRound_eq_false
    (h : ∀ vs, isStakingDestination tx.tx.dest = true → st.vs = some vs → False) :
    isStakingRound tx st = false := by
  unfold isStakingRound
  cases hdest : isStakingDestination tx.tx.dest with
  | false => rfl
  | true =>
    cases hvs : st.vs with
    | none => rfl
    | some vs => exact (h vs hdest hvs).elim

theorem executeOne_ok (h : executeOne E header db st tx = .ok st') :
    ∃ result view, (isStakingRound tx st = false ∧
        Nonempty (TxRun E tx header st.view result view) ∨
        isStakingRound tx st = true ∧ Nonempty (StakingRun tx header st.view result view)) ∧
      st'.view = credit view header.coinbase (validatorFee header result) := by
  obtain ⟨⟨result, mid⟩, hroute, h⟩ := bind_eq_ok.mp h
  cases h
  unfold routeTx at hroute
  split at hroute
  · rename_i vs hdest hvs
    obtain ⟨⟨result', s⟩, hrun, hroute⟩ := bind_eq_ok.mp hroute
    cases hroute
    refine ⟨result, s.balances, .inr ⟨?_, executeStakingTx_ok hrun⟩, rfl⟩
    unfold isStakingRound
    rw [hdest, hvs]
    rfl
  rename_i hother
  obtain ⟨⟨result', view⟩, hrun, hroute⟩ := bind_eq_ok.mp hroute
  cases hroute
  exact ⟨result, view, .inl ⟨isStakingRound_eq_false hother, executeTx_ok hrun⟩, rfl⟩

theorem executeOne_reaches (h : executeOne E header db st tx = .ok st') :
    Reaches st.view st'.view := by
  obtain ⟨result, view, ⟨-, ⟨run⟩⟩ | ⟨-, ⟨run⟩⟩, hview⟩ := executeOne_ok h <;> rw [hview]
  all_goals exact run.reaches.trans (reaches_credit _ _ _)

theorem executeTxs_reaches {txs : List SignedTransaction}
    (h : executeTxs E header db st txs = .ok st') : Reaches st.view st'.view := by
  induction txs generalizing st with
  | nil =>
    cases h
    exact .refl
  | cons tx rest ih =>
    obtain ⟨mid, hone, hrest⟩ := bind_eq_ok.mp h
    exact (executeOne_reaches hone).trans (ih hrest)

/-- What is seen of a block's ordinary transactions, each in the view that it starts in. -/
def seenInBlock {α : Type} (see : SignedTransaction → StateView → List α) (E : Engines)
    (header : BlockHeader) (db : ZbxDb) : BlockState → List SignedTransaction → List α
  | _, [] => []
  | st, tx :: rest =>
    (if isStakingRound tx st then [] else see tx st.view) ++
      match executeOne E header db st tx with
      | .error _ => []
      | .ok st' => seenInBlock see E header db st' rest

theorem mem_seenInBlock_first (hround : isStakingRound tx st = false) (h : a ∈ see tx st.view) :
    a ∈ seenInBlock see E header db st (tx :: rest) := by
  refine List.mem_append_left _ ?_
  rw [hround]
  exact h

theorem mem_seenInBlock_rest (hone : executeOne E header db st tx = .ok st')
    (h : a ∈ seenInBlock see E header db st' rest) :
    a ∈ seenInBlock see E header db st (tx :: rest) := by
  refine List.mem_append_right _ ?_
  rw [hone]
  exact h

variable (header view) in
theorem payReward_reaches : Reaches view (payReward header view) := by
  unfold payReward
  dsimp only
  split
  · exact reaches_credit _ _ _
  · exact .refl

theorem executeBody_ok (h : executeBody E block db vs view = .ok st) :
    ∃ st', executeTxs E block.header db (.start view vs) block.transactions = .ok st' ∧
      st = { st' with view := payReward block.header st'.view } := by
  unfold executeBody at h
  split at h
  · cases h
  obtain ⟨st', htxs, h⟩ := bind_eq_ok.mp h
  cases h
  exact ⟨st', htxs, rfl⟩

theorem executeBody_reaches (h : executeBody E block db vs view = .ok st) :
    Reaches view st.view := by
  obtain ⟨st', htxs, rfl⟩ := executeBody_ok h
  exact (executeTxs_reaches htxs).trans (payReward_reaches _ _)

theorem executeBlock_ok {DB : Type} [TrieDB DB] {trieDb : DB} {exec : ExecutionResult}
    (h : executeBlock E block db vs trieDb view = .ok exec) :
    ∃ st root, executeBody E block db vs view = .ok st ∧ st.view.stateRootWithDb trieDb = .ok root ∧
      exec = ⟨st.receipts, st.view.diffs, st.cumulativeGas, root, st.delta, st.vs⟩ := by
  obtain ⟨st, hbody, hroot⟩ := bind_eq_ok.mp h
  split at hroot
  · rename_i root hroot'
    cases hroot
    exact ⟨st, root, hbody, hroot', rfl⟩
  · cases hroot
  · cases hroot

end ZbxChain

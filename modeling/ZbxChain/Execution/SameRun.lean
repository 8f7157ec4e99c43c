import ZbxChain.Execution.Agreement
import ZbxChain.Staking.Ledgers

/-!
# Execution on views that agree

Block execution on two views that agree on the accounts it looks at gives the same receipts
and the same changes (`executeBody_agree`). The accounts are the senders, the recipients,
the coinbase, the contracts that transactions create and the accounts that the code asks the
host about (`blockTouched`).
-/

namespace ZbxChain

open ZvmStateAccess StateView List Interaction

variable {T : Address → Prop} {v w : StateView}

def SameOutcome (T : Address → Prop) {α : Type} (a b : α × StateView) : Prop :=
  a.1 = b.1 ∧ Agree T a.2 b.2

section

variable {E : Engines} {tx : SignedTransaction} {header : BlockHeader} {target : CallTarget}
  (h : Agree T v w)
include h

theorem preflight_agree (hsender : T tx.sender) :
    Alike (Agree T) (preflight tx v) (preflight tx w) := by
  unfold preflight
  dsimp only
  rw [← h.getAccount hsender]
  split_ifs
  · exact .error _
  · exact .error _
  · exact .error _
  split
  · exact .error _
  rename_i sender hinc
  refine .ok (h.setAccount_of_codeHash hsender ?_)
  unfold AccountState.incrementNonce at hinc
  split_ifs at hinc
  cases hinc
  rfl

theorem deployCode_agree {addr : Address} (haddr : T addr) (vm : VmKind) (code : Bytes) :
    Agree T (deployCode v addr vm code) (deployCode w addr vm code) := by
  unfold deployCode
  split
  · exact h
  have hseeded := h.seedCode (keccak256 code) code
  have hlookup : (v.seedCode (keccak256 code) code).codes.lookup (keccak256 code) =
      (w.seedCode (keccak256 code) code).codes.lookup (keccak256 code) := by
    unfold StateView.seedCode
    rw [AList.lookup_insert, AList.lookup_insert]
  dsimp only
  rw [hseeded.getAccount haddr]
  split
  · exact hseeded.setAccount haddr fun _ => hlookup
  · exact hseeded.setAccount haddr fun _ => hlookup

theorem resolveTarget_agree (hdest : ∀ dest, tx.tx.dest = some dest → T dest)
    (hcreated : tx.tx.dest = none → T (createTxAddress tx.sender tx.tx.nonce)) :
    SameOutcome T (resolveTarget tx v) (resolveTarget tx w) := by
  unfold resolveTarget
  split
  · rename_i hnone
    exact ⟨rfl, deployCode_agree h (hcreated hnone) _ _⟩
  rename_i dest hsome
  dsimp only
  rw [h.getAccount (hdest dest hsome), h.getCode (hdest dest hsome)]
  split
  · exact ⟨rfl, h⟩
  · exact ⟨rfl, h⟩

theorem drainDestructs_agree (created : Finset Address) (pending : List (Address × Address)) :
    Agree T (drainDestructs created pending v) (drainDestructs created pending w) := by
  induction pending generalizing v w with
  | nil => exact h
  | cons d rest ih =>
    refine ih ?_
    dsimp only
    split
    · exact h.selfdestruct d.1
    · exact h

theorem txHost_agree :
    ProductionZvmHost.Agree T (txHost header target v) (txHost header target w) := by
  unfold txHost
  split <;> exact ⟨h, rfl, rfl, rfl, rfl, rfl⟩

theorem drainLogs_agree (n : Nat) : SameOutcome T (drainLogs n v) (drainLogs n w) := by
  unfold drainLogs
  rw [h.diffs]
  refine ⟨rfl, ?_⟩
  have hset := h.setLogs (w.diffs.logs.take n)
  unfold setLogs at hset
  rw [h.diffs] at hset
  exact hset

theorem runZvm_agree (hrequests : ∀ q ∈ requests ProductionZvmHost.handle
      (Zvm.interpret E.zvm (zvmContext tx header target)) (txHost header target v),
      ∀ addr ∈ q.call.accounts, T addr) :
    Alike (SameOutcome T) (runZvm E tx header target v) (runZvm E tx header target w) := by
  obtain ⟨hvalue, hhost⟩ := ProductionZvmHost.run_agree (txHost_agree h) hrequests
  unfold runZvm
  generalize run ProductionZvmHost.handle
    (Zvm.interpret E.zvm (zvmContext tx header target)) (txHost header target v) = r at *
  generalize run ProductionZvmHost.handle
    (Zvm.interpret E.zvm (zvmContext tx header target)) (txHost header target w) = r' at *
  obtain ⟨value, host⟩ := r
  obtain ⟨value', host'⟩ := r'
  subst hvalue
  cases value with
  | none => exact .error _
  | some result =>
    dsimp only
    have hview : Agree T
        (if result.status = .success then
          drainDestructs host.createdThisTx host.pendingDestructs host.state else host.state)
        (if result.status = .success then
          drainDestructs host'.createdThisTx host'.pendingDestructs host'.state
          else host'.state) := by
      rw [hhost.createdThisTx, hhost.pendingDestructs]
      split
      · exact drainDestructs_agree hhost.state _ _
      · exact hhost.state
    obtain ⟨hlogs, hdrained⟩ := drainLogs_agree hview v.diffs.logs.length
    rw [← h.diffs, hlogs]
    exact .ok ⟨rfl, hdrained⟩

theorem runTarget_agree
    (hrequests : ∀ q ∈ targetRequests E tx header target v, ∀ addr ∈ q.call.accounts, T addr) :
    Alike (SameOutcome T) (runTarget E tx header target v) (runTarget E tx header target w) := by
  unfold targetRequests at hrequests
  unfold runTarget
  split_ifs at hrequests ⊢
  · exact .ok ⟨rfl, h⟩
  · exact .ok ⟨rfl, h⟩
  · exact runZvm_agree h hrequests
  · exact .ok ⟨rfl, h⟩

theorem finalizeCreate_agree {addr : Address} (haddr : T addr) (vm : VmKind) (value : Nat) :
    Agree T (finalizeCreate addr vm value v) (finalizeCreate addr vm value w) := by
  unfold finalizeCreate StateView.isDeleted
  rw [h.toDelete]
  split
  · exact h
  rw [← h.getAccount haddr]
  refine h.setAccount_of_codeHash haddr ?_
  split_ifs <;> rfl

theorem settleValue_agree (hsender : T tx.sender) (hdest : ∀ dest, tx.tx.dest = some dest → T dest)
    (hcreated : ∀ addr, target.contractAddress = some addr → T addr) (success : Bool) :
    Agree T (settleValue tx target success v) (settleValue tx target success w) := by
  unfold settleValue
  split
  · split
    · rename_i dest hsome
      exact h.credit (hdest dest hsome) _
    · rename_i addr _ hsome
      exact finalizeCreate_agree h (hcreated addr hsome) _ _
    · exact h
  · exact h.credit hsender _

omit h in
theorem contractAddress_resolveTarget {addr : Address}
    (haddr : (resolveTarget tx v).1.contractAddress = some addr) :
    tx.tx.dest = none ∧ addr = createTxAddress tx.sender tx.tx.nonce := by
  unfold resolveTarget at haddr
  split at haddr
  · rename_i hnone
    exact ⟨hnone, (Option.some.inj haddr).symm⟩
  · dsimp only at haddr
    split at haddr <;> cases haddr

/-- The accounts that an ordinary transaction looks at, besides its sender and recipient. -/
def txTouched (E : Engines) (tx : SignedTransaction) (header : BlockHeader) (view : StateView) :
    List Address :=
  (if tx.tx.dest = none then [createTxAddress tx.sender tx.tx.nonce] else []) ++
    (txRequests E tx header view).flatMap (·.call.accounts)

theorem executeTx_agree (hsender : T tx.sender) (hdest : ∀ dest, tx.tx.dest = some dest → T dest)
    (htouched : ∀ addr ∈ txTouched E tx header v, T addr) :
    Alike (SameOutcome T) (executeTx E tx header v) (executeTx E tx header w) := by
  have hcreated : tx.tx.dest = none → T (createTxAddress tx.sender tx.tx.nonce) := by
    intro hnone
    refine htouched _ (mem_append_left _ ?_)
    rw [if_pos hnone]
    exact mem_singleton.mpr rfl
  have hrequests : ∀ q ∈ txRequests E tx header v, ∀ addr ∈ q.call.accounts, T addr :=
    fun q hq addr haddr =>
      htouched addr (mem_append_right _ (mem_flatMap.mpr ⟨q, hq, haddr⟩))
  refine (preflight_agree h hsender).bind fun debited debited' hpre hdebited => ?_
  unfold txRequests at hrequests
  rw [hpre] at hrequests
  obtain ⟨htarget, hresolved⟩ := resolveTarget_agree hdebited hdest hcreated
  dsimp only
  rw [← htarget]
  refine (runTarget_agree hresolved hrequests).bind ?_
  rintro ⟨outcome, ran⟩ ⟨outcome', ran'⟩ - ⟨houtcome, hran⟩
  subst houtcome
  refine .ok ⟨rfl, ?_⟩
  refine settleValue_agree (hran.credit hsender _) hsender hdest (fun addr haddr => ?_) _
  obtain ⟨hnone, rfl⟩ := contractAddress_resolveTarget haddr
  exact hcreated hnone

/-! ## Staking transactions -/

omit h in
theorem sameLedger_agree (T : Address → Prop) : SameLedger T (Agree T) where
  get hb haddr := hb.balanceOf haddr
  set hb haddr wei := hb.setBalance haddr wei

variable (hsender : T tx.sender) (hescrow : T stakingPrecompileAddr)

include hsender hescrow

theorem runStakingCall_agree
    (E : Engines) (header : BlockHeader) (db : ZbxDb) (vs : ValidatorSet) (delta : StakingDelta) :
    (runStakingCall E tx header db ⟨vs, delta, v⟩).1 =
        (runStakingCall E tx header db ⟨vs, delta, w⟩).1 ∧
      SameStaking (Agree T) (runStakingCall E tx header db ⟨vs, delta, v⟩).2
        (runStakingCall E tx header db ⟨vs, delta, w⟩).2 := by
  unfold runStakingCall
  split
  · exact ⟨rfl, rfl, rfl, h⟩
  · exact ⟨rfl, rfl, rfl, h⟩
  rename_i call _ _
  have hsim := dispatchStakingTx_simulates (sameLedger_agree T) hescrow hsender E.bls call
    tx.tx.valueU128 header.number db ⟨vs, delta, v⟩ ⟨vs, delta, w⟩ ⟨rfl, rfl, h⟩
  generalize dispatchStakingTx E.bls call tx.sender tx.tx.valueU128 header.number db
    (⟨vs, delta, v⟩ : StakingState StateView) = r at hsim ⊢
  generalize dispatchStakingTx E.bls call tx.sender tx.tx.valueU128 header.number db
    (⟨vs, delta, w⟩ : StakingState StateView) = r' at hsim ⊢
  cases hsim with
  | ok gas hR | error e hR => exact ⟨rfl, hR⟩

theorem settleStakingValue_agree (success : Bool) :
    Agree T (settleStakingValue tx success v) (settleStakingValue tx success w) := by
  unfold settleStakingValue
  split_ifs
  · exact h.credit hescrow _
  · exact h
  · exact h.credit hsender _

theorem executeStakingTx_agree (db : ZbxDb) (vs : ValidatorSet) (delta : StakingDelta) :
    Alike (fun a b => a.1 = b.1 ∧ SameStaking (Agree T) a.2 b.2)
      (executeStakingTx E tx header db vs delta v)
      (executeStakingTx E tx header db vs delta w) := by
  refine (preflight_agree h hsender).bind fun debited debited' _ hdebited => ?_
  obtain ⟨hgas, hstate⟩ := runStakingCall_agree hdebited hsender hescrow E header db vs delta
  dsimp only
  rw [hgas]
  refine .ok ⟨rfl, hstate.vs, hstate.delta, ?_⟩
  exact settleStakingValue_agree (hstate.balances.credit hsender _) hsender hescrow _

end

/-! ## Blocks -/

variable {E : Engines} {header : BlockHeader} {db : ZbxDb} {st st' : BlockState}

structure SameBlock (T : Address → Prop) (st st' : BlockState) : Prop where
  view : Agree T st.view st'.view
  vs : st.vs = st'.vs
  delta : st.delta = st'.delta
  cumulativeGas : st.cumulativeGas = st'.cumulativeGas
  receipts : st.receipts = st'.receipts

def blockTouched (E : Engines) (header : BlockHeader) (db : ZbxDb) :
    BlockState → List SignedTransaction → List Address :=
  seenInBlock (fun tx view => txTouched E tx header view) E header db

def Named (T : Address → Prop) (tx : SignedTransaction) : Prop :=
  T tx.sender ∧ ∀ dest, tx.tx.dest = some dest → T dest

theorem routeTx_agree {tx : SignedTransaction} (h : SameBlock T st st') (hnamed : Named T tx)
    (htouched : isStakingRound tx st = false → ∀ addr ∈ txTouched E tx header st.view, T addr) :
    Alike (fun a b => a.1 = b.1 ∧ SameBlock T a.2 b.2) (routeTx E tx header db st)
      (routeTx E tx header db st') := by
  unfold routeTx
  rw [← h.vs]
  split
  · rename_i vs hdest hvs
    have hescrow : T stakingPrecompileAddr := hnamed.2 _ (of_decide_eq_true hdest)
    rw [← h.delta]
    refine (executeStakingTx_agree h.view hnamed.1 hescrow db vs st.delta).bind ?_
    rintro ⟨result, s⟩ ⟨result', s'⟩ - ⟨hresult, hs⟩
    refine .ok ⟨hresult, hs.balances, ?_, hs.delta, h.cumulativeGas, h.receipts⟩
    exact congrArg some hs.vs
  rename_i hother
  have hround := isStakingRound_eq_false hother
  refine (executeTx_agree h.view hnamed.1 hnamed.2 (htouched hround)).bind ?_
  rintro ⟨result, view⟩ ⟨result', view'⟩ - ⟨hresult, hview⟩
  exact .ok ⟨hresult, hview, rfl, h.delta, h.cumulativeGas, h.receipts⟩

theorem executeOne_agree {tx : SignedTransaction} (h : SameBlock T st st') (hnamed : Named T tx)
    (hcoinbase : T header.coinbase)
    (htouched : isStakingRound tx st = false → ∀ addr ∈ txTouched E tx header st.view, T addr) :
    Alike (SameBlock T) (executeOne E header db st tx) (executeOne E header db st' tx) := by
  refine (routeTx_agree h hnamed htouched).bind ?_
  rintro ⟨result, mid⟩ ⟨result', mid'⟩ - ⟨hresult, hmid⟩
  dsimp only at hresult hmid ⊢
  subst hresult
  rw [hmid.cumulativeGas, hmid.receipts]
  exact .ok ⟨hmid.view.credit hcoinbase _, hmid.vs, hmid.delta, rfl, rfl⟩

theorem executeTxs_agree {txs : List SignedTransaction} (h : SameBlock T st st')
    (hnamed : ∀ tx ∈ txs, Named T tx) (hcoinbase : T header.coinbase)
    (htouched : ∀ addr ∈ blockTouched E header db st txs, T addr) :
    Alike (SameBlock T) (executeTxs E header db st txs) (executeTxs E header db st' txs) := by
  induction txs generalizing st st' with
  | nil => exact .ok h
  | cons tx rest ih =>
    have hfirst : Alike (SameBlock T) (executeOne E header db st tx)
        (executeOne E header db st' tx) :=
      executeOne_agree h (hnamed tx mem_cons_self) hcoinbase fun hround addr haddr =>
        htouched addr (mem_seenInBlock_first hround haddr)
    refine hfirst.bind fun mid mid' hone hmid => ?_
    exact ih hmid (fun tx' htx' => hnamed tx' (mem_cons_of_mem _ htx'))
      fun addr haddr => htouched addr (mem_seenInBlock_rest hone haddr)

theorem executeBody_agree {block : Block} {vs : Option ValidatorSet} (h : Agree T v w)
    (hnamed : ∀ tx ∈ block.transactions, Named T tx) (hcoinbase : T block.header.coinbase)
    (htouched : ∀ addr ∈ blockTouched E block.header db (.start v vs) block.transactions, T addr) :
    Alike (SameBlock T) (executeBody E block db vs v) (executeBody E block db vs w) := by
  unfold executeBody
  split
  · exact .error _
  have hstart : SameBlock T (.start v vs) (.start w vs) := ⟨h, rfl, rfl, rfl, rfl⟩
  refine (executeTxs_agree hstart hnamed hcoinbase htouched).bind fun st st' _ hst => ?_
  refine .ok ⟨?_, hst.vs, hst.delta, hst.cumulativeGas, hst.receipts⟩
  unfold payReward
  dsimp only
  split
  · exact hst.view.credit hcoinbase _
  · exact hst.view

end ZbxChain

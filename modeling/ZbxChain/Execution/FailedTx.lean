import ZbxChain.Execution.Reach

/-!
# Failed transactions

A transaction that is accepted and fails leaves its sender with one more nonce and without
the fee, and a creation leaves the code that it was to run (`failed_tx_frame`). This is so
when the code has not asked the ZVM host for a change of the state: such changes are not
rolled back.
-/

namespace ZbxChain

open ZvmStateAccess StateView AccountState Interaction

def Zvm.HostCall.changesState : Zvm.HostCall → Bool
  | .storageStore .. | .transfer .. | .incNonce _ | .setCode .. | .burnZbx ..
  | .selfdestruct .. => true
  | _ => false

/-! ## Runs without changes -/

namespace ProductionZvmHost

theorem answer_of_not_changesState {c : Zvm.HostCall} (h : c.changesState = false)
    (host : ProductionZvmHost StateView) : ∃ logs, (answer c host).2.state =
      host.state.setLogs (host.state.diffs.logs ++ logs) := by
  have hrefl : host.state = host.state.setLogs (host.state.diffs.logs ++ []) := by
    rw [List.append_nil]
    rfl
  by_cases hwrites : c.writes = false
  · rw [answer_of_not_writes hwrites]
    exact ⟨[], hrefl⟩
  cases c <;> first | exact absurd rfl hwrites | exact Bool.noConfusion h | skip
  case transientStore addr key value => exact ⟨[], hrefl⟩
  case markCreatedThisTx addr => exact ⟨[], hrefl⟩
  case emitLog addr topics data => exact ⟨[logOf addr topics data], rfl⟩

theorem run_of_not_changesState {α : Type} {p : Zvm.HostM α} {host : ProductionZvmHost StateView}
    (h : ∀ q ∈ requests handle p host, q.call.changesState = false) :
    ∃ logs, (run handle p host).2.state = host.state.setLogs (host.state.diffs.logs ++ logs) := by
  refine run_invariant (P := fun host' : ProductionZvmHost StateView =>
    ∃ logs, host'.state = host.state.setLogs (host.state.diffs.logs ++ logs)) ?_ ⟨[], ?_⟩
  · rintro q hq host' ⟨logs, hlogs⟩
    obtain ⟨more, hmore⟩ := answer_of_not_changesState (h q hq) host'
    refine ⟨logs ++ more, hmore.trans ?_⟩
    rw [hlogs, ← List.append_assoc]
    rfl
  · rw [List.append_nil]
    rfl

end ProductionZvmHost

section

variable {E : Engines} {tx : SignedTransaction} {header : BlockHeader} {target : CallTarget}
  {view view' : StateView} {outcome : Outcome}

theorem runZvm_of_not_changesState (hquiet : ∀ q ∈ requests ProductionZvmHost.handle
      (Zvm.interpret E.zvm (zvmContext tx header target)) (txHost header target view),
      q.call.changesState = false) (hrun : runZvm E tx header target view = .ok (outcome, view'))
    (hfail : outcome.status ≠ .succeeded) : view' = view := by
  obtain ⟨logs, hlogs⟩ := ProductionZvmHost.run_of_not_changesState hquiet
  rw [txHost_state] at hlogs
  unfold runZvm at hrun
  split at hrun
  · cases hrun
  rename_i result host heq
  rw [heq] at hlogs
  cases hrun
  have hstatus : result.status ≠ .success := by
    intro hsuccess
    exact hfail (congrArg exitStatus hsuccess)
  have hstate : host.state = view.setLogs (view.diffs.logs ++ logs) := hlogs
  rw [if_neg hstatus, hstate]
  show view.setLogs ((view.diffs.logs ++ logs).take view.diffs.logs.length) = view
  rw [List.take_left]
  rfl

theorem runTarget_of_not_changesState
    (hquiet : ∀ q ∈ targetRequests E tx header target view, q.call.changesState = false)
    (hrun : runTarget E tx header target view = .ok (outcome, view'))
    (hfail : outcome.status ≠ .succeeded) : view' = view := by
  unfold targetRequests at hquiet
  unfold runTarget at hrun
  split_ifs at hrun hquiet
  · cases hrun
    rfl
  · cases hrun
    rfl
  · exact runZvm_of_not_changesState hquiet hrun hfail
  · cases hrun
    rfl

end

/-! ## The frame of a failed transaction -/

def deployed (tx : SignedTransaction) : Option (Address × VmKind × Bytes) :=
  if tx.tx.dest = none ∧ (deployVm tx.tx.data).2 ≠ [] then
    some (createTxAddress tx.sender tx.tx.nonce, deployVm tx.tx.data)
  else none

/-- An account with new code, as `set_account` takes it: a contract keeps its code hash. -/
def withCode (vm : VmKind) (code : Bytes) (acct : AccountState) : AccountState :=
  let new := { acct with codeHash := keccak256 code }
  guardAccount acct (if vm = .zvm then { new with vm := .zvm } else new)

def chargedAccount (tx : SignedTransaction) (fee : Nat) (view : StateView) (addr : Address) :
    AccountState :=
  let acct := view.getAccount addr
  if addr = tx.sender then
    { acct.setBalanceU128 (acct.balanceU128 - fee) with nonce := acct.nonce + 1 }
  else acct

/-- The view after a failed transaction that was charged `fee`. -/
structure OnlyCharged (tx : SignedTransaction) (fee : Nat) (view view' : StateView) : Prop where
  account : ∀ addr, (∀ vm code, deployed tx ≠ some (addr, vm, code)) →
    view'.getAccount addr = chargedAccount tx fee view addr
  created : ∀ addr vm code, deployed tx = some (addr, vm, code) →
    view'.getAccount addr = withCode vm code (chargedAccount tx fee view addr)
  codes_none : deployed tx = none → view'.codes = view.codes
  codes_some : ∀ addr vm code, deployed tx = some (addr, vm, code) →
    view'.codes = view.codes.insert (keccak256 code) code
  storage : view'.diffs.storage = view.diffs.storage

theorem balance_after_failure {balance maxCost value owed : Nat} (hcost : maxCost + value ≤ balance)
    (hlt : balance < 2 ^ 128) :
    satAddU128 (satAddU128 (balance - (maxCost + value)) (maxCost - owed)) value =
      balance - min maxCost owed := by
  unfold satAddU128
  omega

@[simp] theorem withCode_balanceU128 (vm : VmKind) (code : Bytes) (acct : AccountState) :
    (withCode vm code acct).balanceU128 = acct.balanceU128 := by
  unfold withCode balanceU128
  rw [guardAccount_balance]
  split <;> rfl

theorem withCode_setBalanceU128 (vm : VmKind) (code : Bytes) (acct : AccountState) (wei : Nat) :
    (withCode vm code acct).setBalanceU128 wei = withCode vm code (acct.setBalanceU128 wei) := by
  unfold withCode guardAccount
  cases vm <;> dsimp only [setBalanceU128, isContract,
    isEoa] <;> split_ifs <;> rfl

section

variable {E : Engines} {tx : SignedTransaction} {header : BlockHeader} {view view' : StateView}
  {result : TxResult}

theorem PreflightSpec.getAccount (h : PreflightSpec tx view view') (addr : Address) :
    view'.getAccount addr = chargedAccount tx (upfrontCost tx.tx) view addr := by
  unfold chargedAccount
  rw [h.debited]
  split
  · rename_i heq
    rw [heq, getAccount_setAccount_self]
    refine guardAccount_of_le ?_ rfl
    have hlt := h.nonce_lt
    rw [UInt64.le_iff_toNat_le, UInt64.toNat_add, UInt64.toNat_one, Nat.mod_eq_of_lt hlt]
    exact Nat.le_succ _
  · rename_i hne
    exact getAccount_setAccount_ne _ hne

theorem resolveTarget_of_deployed_none (h : deployed tx = none) (view : StateView) :
    (resolveTarget tx view).2 = view := by
  unfold deployed at h
  unfold resolveTarget
  split
  · rename_i hdest
    dsimp only
    have hcode : (deployVm tx.tx.data).2 = [] := by
      by_contra hne
      rw [if_pos ⟨hdest, hne⟩] at h
      cases h
    unfold deployCode
    rw [if_pos hcode]
  · dsimp only
    split <;> rfl

variable {addr : Address} {code : Bytes} {vm : VmKind}

theorem resolveTarget_of_deployed_some (h : deployed tx = some (addr, vm, code))
    (view : StateView) : (resolveTarget tx view).2 = deployCode view addr vm code ∧ code ≠ [] := by
  unfold deployed at h
  split_ifs at h with hcond
  obtain ⟨haddr, hdeploy⟩ := Prod.mk.inj (Option.some.inj h)
  have hcode : (deployVm tx.tx.data).2 = code := congrArg Prod.snd hdeploy
  unfold resolveTarget
  rw [hcond.1, ← haddr, ← hcode]
  dsimp only
  rw [show (deployVm tx.tx.data).1 = vm from congrArg Prod.fst hdeploy]
  exact ⟨rfl, hcond.2⟩

theorem getAccount_deployCode_ne {other : Address} (hne : other ≠ addr) (view : StateView)
    (vm : VmKind) (code : Bytes) :
    (deployCode view addr vm code).getAccount other = view.getAccount other := by
  unfold deployCode
  split
  · rfl
  · exact getAccount_setAccount_ne _ hne

theorem deployCode_stores (hcode : code ≠ []) (view : StateView) (addr : Address) (vm : VmKind) :
    (deployCode view addr vm code).codes = view.codes.insert (keccak256 code) code ∧
      (deployCode view addr vm code).diffs.storage = view.diffs.storage := by
  unfold deployCode
  rw [if_neg hcode]
  have h := sameStores_setAccount (view.seedCode (keccak256 code) code) addr
    (if vm = .zvm then { { view.getAccount addr with codeHash := keccak256 code } with vm := .zvm }
      else { view.getAccount addr with codeHash := keccak256 code })
  exact ⟨h.codes, h.storage⟩

theorem getAccount_credit_twice (view : StateView) (src : Address) (refund value : Nat)
    (addr : Address) : (credit (credit view src refund) src value).getAccount addr =
      if addr = src then (view.getAccount src).setBalanceU128
        (satAddU128 (satAddU128 (view.getAccount src).balanceU128 refund) value)
      else view.getAccount addr := by
  have hfirst : balanceOf (credit view src refund) src =
      satAddU128 (view.getAccount src).balanceU128 refund :=
    balanceOf_setBalance_self view src (satAddU128_lt _ _)
  split
  · rename_i heq
    rw [heq]
    have hrecord : (credit view src refund).getAccount src = (view.getAccount src).setBalanceU128
        (satAddU128 (view.getAccount src).balanceU128 refund) := getAccount_setBalance_self view src _
    refine (getAccount_setBalance_self (credit view src refund) src _).trans ?_
    rw [hfirst, hrecord]
    rfl
  · rename_i hne
    exact (getAccount_setBalance_ne _ hne).trans (getAccount_setBalance_ne _ hne)

theorem sameStores_credit (view : StateView) (addr : Address) (amount : Nat) :
    SameStores view (credit view addr amount) := sameStores_setBalance view addr _

theorem chargedAccount_settled (hpre : PreflightSpec tx view view')
    (hfits : tx.tx.maxCost + tx.tx.valueU128 < 2 ^ 128) (owed : Nat) :
    let debited := chargedAccount tx (upfrontCost tx.tx) view tx.sender
    debited.setBalanceU128 (satAddU128
      (satAddU128 debited.balanceU128 (tx.tx.maxCost - owed)) tx.tx.valueU128) =
        chargedAccount tx (min tx.tx.maxCost owed) view tx.sender := by
  intro debited
  have hcost : upfrontCost tx.tx = tx.tx.maxCost + tx.tx.valueU128 := Nat.mod_eq_of_lt hfits
  have hlt := (view.getAccount tx.sender).balanceU128_lt
  have hle : tx.tx.maxCost + tx.tx.valueU128 ≤ (view.getAccount tx.sender).balanceU128 := by
    have hsat := hpre.cost_le
    unfold satAddU128 at hsat
    omega
  have hdebited : debited.balanceU128 =
      (view.getAccount tx.sender).balanceU128 - (tx.tx.maxCost + tx.tx.valueU128) := by
    show (chargedAccount tx (upfrontCost tx.tx) view tx.sender).balanceU128 = _
    unfold chargedAccount
    rw [if_pos rfl, hcost]
    exact balanceU128_setBalanceU128 (view.getAccount tx.sender) (by omega)
  rw [hdebited, balance_after_failure hle hlt]
  show (chargedAccount tx (upfrontCost tx.tx) view tx.sender).setBalanceU128 _ = _
  unfold chargedAccount
  rw [if_pos rfl, if_pos rfl]
  rfl

theorem getAccount_resolveTarget_ne (hne : ∀ vm code, deployed tx ≠ some (addr, vm, code))
    (view : StateView) : (resolveTarget tx view).2.getAccount addr = view.getAccount addr := by
  cases hdeploy : deployed tx with
  | none => rw [resolveTarget_of_deployed_none hdeploy]
  | some d =>
    rw [(resolveTarget_of_deployed_some hdeploy view).1]
    refine getAccount_deployCode_ne ?_ view d.2.1 d.2.2
    rintro rfl
    exact hne _ _ hdeploy

theorem getAccount_resolveTarget_self (hdeploy : deployed tx = some (addr, vm, code))
    (view : StateView) :
    (resolveTarget tx view).2.getAccount addr = withCode vm code (view.getAccount addr) := by
  obtain ⟨hresolved, hcode⟩ := resolveTarget_of_deployed_some hdeploy view
  rw [hresolved]
  unfold deployCode
  rw [if_neg hcode]
  exact getAccount_setAccount_self (view.seedCode (keccak256 code) code) addr _

theorem chargedAccount_of_ne (hne : addr ≠ tx.sender) (fee fee' : Nat) :
    chargedAccount tx fee view addr = chargedAccount tx fee' view addr := by
  unfold chargedAccount
  rw [if_neg hne, if_neg hne]

theorem onlyCharged_of_settled {debited : StateView} (hpre : PreflightSpec tx view debited)
    (hfits : tx.tx.maxCost + tx.tx.valueU128 < 2 ^ 128) (owed : Nat) :
    OnlyCharged tx (min tx.tx.maxCost owed) view (credit (credit (resolveTarget tx debited).2
      tx.sender (tx.tx.maxCost - owed)) tx.sender tx.tx.valueU128) := by
  have hstores : SameStores (resolveTarget tx debited).2 (credit (credit
      (resolveTarget tx debited).2 tx.sender (tx.tx.maxCost - owed)) tx.sender tx.tx.valueU128) :=
    (sameStores_credit _ _ _).trans (sameStores_credit _ _ _)
  have hdebited : SameStores view debited := by
    rw [hpre.debited]
    exact sameStores_setAccount _ _ _
  have hsettled := chargedAccount_settled hpre hfits owed
  refine ⟨fun addr hne => ?_, fun addr vm code hdeploy => ?_, fun hnone => ?_,
    fun addr vm code hdeploy => ?_, ?_⟩
  · rw [getAccount_credit_twice]
    split
    · rename_i heq
      subst heq
      rw [getAccount_resolveTarget_ne hne, hpre.getAccount]
      exact hsettled
    rename_i hsender
    rw [getAccount_resolveTarget_ne hne, hpre.getAccount]
    exact chargedAccount_of_ne hsender _ _
  · rw [getAccount_credit_twice]
    split
    · rename_i heq
      subst heq
      rw [getAccount_resolveTarget_self hdeploy, hpre.getAccount, withCode_setBalanceU128,
        withCode_balanceU128]
      exact congrArg (withCode vm code) hsettled
    rename_i hsender
    rw [getAccount_resolveTarget_self hdeploy, hpre.getAccount]
    exact congrArg (withCode vm code) (chargedAccount_of_ne hsender _ _)
  · rw [hstores.codes, resolveTarget_of_deployed_none hnone, hdebited.codes]
  · obtain ⟨hresolved, hcode⟩ := resolveTarget_of_deployed_some hdeploy debited
    rw [hstores.codes, hresolved, (deployCode_stores hcode _ _ _).1, hdebited.codes]
  · rw [hstores.storage, ← hdebited.storage]
    cases hdeploy : deployed tx with
    | none => rw [resolveTarget_of_deployed_none hdeploy]
    | some d =>
      obtain ⟨hresolved, hcode⟩ := resolveTarget_of_deployed_some hdeploy debited
      rw [hresolved, (deployCode_stores hcode _ _ _).2]

theorem failed_tx_frame (h : executeTx E tx header view = .ok (result, view'))
    (hfail : result.success = false) (hfits : tx.tx.maxCost + tx.tx.valueU128 < 2 ^ 128)
    (hquiet : ∀ q ∈ txRequests E tx header view, q.call.changesState = false) :
    OnlyCharged tx (min tx.tx.maxCost (result.gasUsed * result.effectivePrice)) view view' := by
  obtain ⟨run⟩ := executeTx_ok h
  have hstatus : run.outcome.status ≠ .succeeded := by
    have hsuccess := run.success_eq
    rw [hfail] at hsuccess
    exact of_decide_eq_false hsuccess.symm
  unfold txRequests at hquiet
  rw [run.preflight_eq] at hquiet
  have hran := runTarget_of_not_changesState hquiet run.run_eq hstatus
  have hview := run.settled_eq
  rw [hfail, hran] at hview
  have hcharged := onlyCharged_of_settled (preflight_ok run.preflight_eq) hfits
    (result.gasUsed * result.effectivePrice)
  rw [hview]
  exact hcharged

end

/-- `0xa1` can pay for gas, and `0xc2` is a contract that fails at once. -/
def invalidView : StateView :=
  ((StateView.new.seedCode (keccak256 [0xfe]) [0xfe]).seedAccount 0xc2
    { AccountState.default with codeHash := keccak256 [0xfe], vm := .zvm }).seedAccount 0xa1
      { AccountState.default with balance := 1000000 }

/-- A call of that contract costs its sender the gas and nothing else. -/
theorem failed_call_frame : ∃ result view',
    executeTx .idle (.basic 0xa1 0 (some 0xc2) 5 []) (Block.first []).header invalidView =
      .ok (result, view') ∧ result.success = false ∧
    OnlyCharged (.basic 0xa1 0 (some 0xc2) 5 []) (min 200000 (result.gasUsed * 2)) invalidView
      view' := by
  obtain ⟨result, view', hrun, hfail, hprice⟩ : ∃ result view', executeTx .idle
      (.basic 0xa1 0 (some 0xc2) 5 []) (Block.first []).header invalidView = .ok (result, view') ∧
      result.success = false ∧ result.effectivePrice = 2 := by decide +kernel
  have hframe := failed_tx_frame hrun hfail (by decide +kernel) (by decide +kernel)
  rw [hprice] at hframe
  exact ⟨result, view', hrun, hfail, hframe⟩

/-- A creation that fails leaves a contract. -/
theorem failed_creation_deploys : ∃ result view',
    executeTx .idle (.basic 0xa1 0 none 0 [0x5a, 0xfe]) (Block.first []).header invalidView =
      .ok (result, view') ∧ result.success = false ∧
    invalidView.getAccount (createTxAddress 0xa1 0) = .default ∧
    (view'.getAccount (createTxAddress 0xa1 0)).codeHash = keccak256 [0xfe] ∧
    invalidView.getCode (createTxAddress 0xa1 0) = [] ∧
    view'.getCode (createTxAddress 0xa1 0) = [0xfe] := by
  decide +kernel

end ZbxChain

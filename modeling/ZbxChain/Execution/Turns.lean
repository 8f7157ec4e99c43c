import ZbxChain.Execution.Reach

/-!
# Transactions in turn

Which lists of transactions a block can hold, seen from the accounts it starts with. A transaction
that runs no ZVM code (`Plain`) costs its sender what it has announced and one nonce, and takes
nothing from others (`Turn`).
-/

namespace ZbxChain

open ZvmStateAccess StateView AccountState List

/-! ## Steps that take nothing -/

structure Spares (view view' : StateView) : Prop where
  nonce : ∀ a, (view'.getAccount a).nonce = (view.getAccount a).nonce
  vm : ∀ a, (view'.getAccount a).vm = (view.getAccount a).vm
  balance : ∀ a, a ≠ stakingPrecompileAddr → balanceOf view a ≤ balanceOf view' a

namespace Spares

theorem refl (view : StateView) : Spares view view :=
  ⟨fun _ => rfl, fun _ => rfl, fun _ _ => le_rfl⟩

theorem trans {a b c : StateView} (h : Spares a b) (h' : Spares b c) : Spares a c where
  nonce addr := (h'.nonce addr).trans (h.nonce addr)
  vm addr := (h'.vm addr).trans (h.vm addr)
  balance addr hne := (h.balance addr hne).trans (h'.balance addr hne)

end Spares

theorem guardAccount_nonce_of_le {prior state : AccountState} (h : prior.nonce ≤ state.nonce) :
    (guardAccount prior state).nonce = state.nonce := by
  unfold guardAccount
  rw [if_neg (UInt64.not_lt.mpr h)]
  split <;> rfl

theorem guardAccount_vm (prior state : AccountState) :
    (guardAccount prior state).vm = state.vm := by
  unfold guardAccount
  split_ifs <;> rfl

variable {view view' : StateView} {tx : SignedTransaction}

theorem spares_setAccount {addr : Address} {state : AccountState}
    (hnonce : state.nonce = (view.getAccount addr).nonce)
    (hvm : state.vm = (view.getAccount addr).vm) (hbalance : addr ≠ stakingPrecompileAddr →
      (view.getAccount addr).balanceU128 ≤ state.balanceU128) :
    Spares view (view.setAccount addr state) := by
  refine ⟨?_, ?_, ?_⟩
  · intro a
    by_cases ha : a = addr
    · subst ha
      rw [getAccount_setAccount_self, guardAccount_nonce_of_le (hnonce ▸ UInt64.le_refl _), hnonce]
    · rw [getAccount_setAccount_ne _ ha]
  · intro a
    by_cases ha : a = addr
    · subst ha
      rw [getAccount_setAccount_self, guardAccount_vm, hvm]
    · rw [getAccount_setAccount_ne _ ha]
  intro a hstaking
  show (view.getAccount a).balanceU128 ≤ ((view.setAccount addr state).getAccount a).balanceU128
  by_cases ha : a = addr
  · subst ha
    rw [getAccount_setAccount_self]
    unfold balanceU128
    rw [guardAccount_balance]
    exact hbalance hstaking
  · rw [getAccount_setAccount_ne _ ha]

theorem spares_setBalance {addr : Address} {wei : Nat} (hwei : wei < 2 ^ 128)
    (hle : addr ≠ stakingPrecompileAddr → balanceOf view addr ≤ wei) :
    Spares view (setBalance view addr wei) := by
  refine spares_setAccount rfl rfl fun hne => ?_
  rw [balanceU128_setBalanceU128 _ hwei]
  exact hle hne

theorem spares_credit (view : StateView) (addr : Address) (amount : Nat) :
    Spares view (credit view addr amount) := by
  have hlt : balanceOf view addr < 2 ^ 128 := balanceU128_lt _
  refine spares_setBalance (satAddU128_lt _ _) fun _ => ?_
  unfold satAddU128
  omega

theorem spares_deployCode (view : StateView) (addr : Address) (code : Bytes) :
    Spares view (deployCode view addr .evm code) := by
  unfold deployCode
  split
  · exact .refl view
  dsimp only
  rw [if_neg (by decide)]
  have hseed : Spares view (view.seedCode (keccak256 code) code) :=
    ⟨fun _ => rfl, fun _ => rfl, fun _ _ => le_rfl⟩
  refine hseed.trans (spares_setAccount ?_ ?_ fun _ => ?_)
  · rfl
  · rfl
  · exact le_rfl

theorem spares_finalizeCreate (addr : Address) (value : Nat) (view : StateView) :
    Spares view (finalizeCreate addr .evm value view) := by
  unfold finalizeCreate
  split
  · exact .refl view
  dsimp only
  rw [if_neg (by decide)]
  by_cases hvalue : 0 < value
  · rw [if_pos hvalue]
    refine spares_setAccount rfl rfl fun _ => ?_
    have hlt := balanceU128_lt (view.getAccount addr)
    rw [balanceU128_setBalanceU128 _ (satAddU128_lt _ _)]
    unfold satAddU128
    omega
  · rw [if_neg hvalue]
    exact spares_setAccount rfl rfl fun _ => le_rfl

theorem AtMostPaid.spares {recipient : Address} (h : AtMostPaid recipient view view') :
    Spares view view' := by
  rcases h with rfl | ⟨amount, -, rfl⟩
  · exact .refl view'
  have hlt : balanceOf view stakingPrecompileAddr < 2 ^ 128 := balanceU128_lt _
  have hdebit : Spares view
      (setBalance view stakingPrecompileAddr (balanceOf view stakingPrecompileAddr - amount)) :=
    spares_setBalance (by omega) fun hne => absurd rfl hne
  exact hdebit.trans (spares_credit _ _ _)

/-! ## Plain transactions -/

structure Plain (account : Address → AccountState) (tx : SignedTransaction) : Prop where
  create : tx.tx.dest = none → (deployVm tx.tx.data).1 = .evm
  call : ∀ dest, tx.tx.dest = some dest → (account dest).vm = .evm
  sender : tx.sender ≠ stakingPrecompileAddr

theorem Plain.of_vm {account account' : Address → AccountState} (h : Plain account tx)
    (hvm : ∀ dest, tx.tx.dest = some dest → (account' dest).vm = (account dest).vm) :
    Plain account' tx :=
  ⟨h.create, fun dest hdest => (hvm dest hdest).trans (h.call dest hdest), h.sender⟩

theorem Plain.resolveTarget (h : Plain view.getAccount tx) :
    (resolveTarget tx view).1.calleeVm = .evm ∧ Spares view (resolveTarget tx view).2 := by
  unfold ZbxChain.resolveTarget
  cases hdest : tx.tx.dest with
  | none =>
    have hvm := h.create hdest
    dsimp only
    refine ⟨hvm, ?_⟩
    rw [hvm]
    exact spares_deployCode _ _ _
  | some dest =>
    dsimp only
    split
    · exact ⟨h.call dest hdest, .refl view⟩
    · exact ⟨rfl, .refl view⟩

variable (E : Engines)

theorem runTarget_of_evm (tx : SignedTransaction) (header : BlockHeader) {target : CallTarget}
    (h : target.calleeVm = .evm) (view : StateView) :
    ∃ outcome, runTarget E tx header target view = .ok (outcome, view) := by
  unfold runTarget
  rw [h]
  split_ifs with hprecompile hplain hzvm
  · exact ⟨_, rfl⟩
  · exact ⟨_, rfl⟩
  · cases hzvm
  · exact ⟨_, rfl⟩

theorem spares_settleValue {target : CallTarget} (h : target.calleeVm = .evm) (success : Bool)
    (view : StateView) : Spares view (settleValue tx target success view) := by
  unfold settleValue
  split
  · split
    · exact spares_credit _ _ _
    · rw [h]
      exact spares_finalizeCreate _ _ _
    · exact .refl view
  · exact spares_credit _ _ _

theorem spares_settleStakingValue (success : Bool) (view : StateView) :
    Spares view (settleStakingValue tx success view) := by
  unfold settleStakingValue
  split_ifs
  · exact spares_credit _ _ _
  · exact .refl view
  · exact spares_credit _ _ _

/-! ## One turn -/

def totalCost (tx : Transaction) : Nat := satAddU128 tx.maxCost tx.valueU128

theorem upfrontCost_le_totalCost (tx : Transaction) : upfrontCost tx ≤ totalCost tx := by
  unfold upfrontCost totalCost satAddU128
  omega

structure Turn (tx : SignedTransaction) (view view' : StateView) : Prop where
  sender : (view'.getAccount tx.sender).nonce.toNat = (view.getAccount tx.sender).nonce.toNat + 1
  others : ∀ a, a ≠ tx.sender → (view'.getAccount a).nonce = (view.getAccount a).nonce
  vm : ∀ a, (view'.getAccount a).vm = (view.getAccount a).vm
  paid : tx.sender ≠ stakingPrecompileAddr →
    balanceOf view tx.sender ≤ balanceOf view' tx.sender + totalCost tx.tx
  balance : ∀ a, a ≠ tx.sender → a ≠ stakingPrecompileAddr → balanceOf view a ≤ balanceOf view' a

theorem Turn.spares {mid : StateView} (h : Turn tx view mid) (h' : Spares mid view') :
    Turn tx view view' where
  sender := by rw [h'.nonce]; exact h.sender
  others a ha := (h'.nonce a).trans (h.others a ha)
  vm a := (h'.vm a).trans (h.vm a)
  paid hne := by
    have hdebit := h.paid hne
    have hlater := h'.balance tx.sender hne
    omega
  balance a ha hne := (h.balance a ha hne).trans (h'.balance a hne)

theorem preflight_turn (hnonce : tx.tx.nonce = (view.getAccount tx.sender).nonce)
    (hcost : totalCost tx.tx ≤ balanceOf view tx.sender)
    (hgas : tx.tx.intrinsicGas ≤ tx.tx.gasLimit.toNat) (hlt : tx.tx.nonce.toNat + 1 < 2 ^ 64) :
    ∃ debited, preflight tx view = .ok debited ∧ Turn tx view debited := by
  rw [hnonce] at hlt
  have hfunds : ¬ (view.getAccount tx.sender).balanceU128 <
      satAddU128 tx.tx.maxCost tx.tx.valueU128 := Nat.not_lt.mpr hcost
  have hrun : ∃ debited, preflight tx view = .ok debited := by
    unfold preflight
    rw [if_neg (not_not.mpr hnonce), if_neg hfunds, if_neg (Nat.not_lt.mpr hgas)]
    rw [show ((view.getAccount tx.sender).setBalanceU128 _).incrementNonce = some _ from if_pos hlt]
    exact ⟨_, rfl⟩
  obtain ⟨debited, hpre⟩ := hrun
  refine ⟨debited, hpre, ?_⟩
  have hdebited := (preflight_ok hpre).debited
  have hsucc : ((view.getAccount tx.sender).nonce + 1).toNat =
      (view.getAccount tx.sender).nonce.toNat + 1 := by
    rw [UInt64.toNat_add]
    exact Nat.mod_eq_of_lt hlt
  have hbal : balanceOf view tx.sender < 2 ^ 128 := balanceU128_lt _
  have hupfront := upfrontCost_le_totalCost tx.tx
  subst hdebited
  refine ⟨?_, ?_, ?_, ?_, ?_⟩
  · rw [getAccount_setAccount_self, guardAccount_nonce_of_le, ← hsucc]
    rw [UInt64.le_iff_toNat_le]
    exact hsucc ▸ Nat.le_succ _
  · intro a ha
    rw [getAccount_setAccount_ne _ ha]
  · intro a
    by_cases ha : a = tx.sender
    · rw [ha, getAccount_setAccount_self, guardAccount_vm]
      rfl
    · rw [getAccount_setAccount_ne _ ha]
  · intro _
    have hleft : balanceOf (view.setAccount tx.sender
        { (view.getAccount tx.sender).setBalanceU128
            ((view.getAccount tx.sender).balanceU128 - upfrontCost tx.tx) with
          nonce := (view.getAccount tx.sender).nonce + 1 }) tx.sender =
        balanceOf view tx.sender - upfrontCost tx.tx := by
      show ((view.setAccount tx.sender _).getAccount tx.sender).balanceU128 = _
      rw [getAccount_setAccount_self]
      unfold balanceU128
      rw [guardAccount_balance]
      exact balanceU128_setBalanceU128 (view.getAccount tx.sender)
        (Nat.lt_of_le_of_lt (Nat.sub_le _ _) hbal)
    rw [hleft]
    omega
  · intro a ha _
    show (view.getAccount a).balanceU128 ≤ ((view.setAccount tx.sender _).getAccount a).balanceU128
    rw [getAccount_setAccount_ne _ ha]

variable (header : BlockHeader) (db : ZbxDb)

theorem executeOne_turn {st : BlockState} (hplain : Plain st.view.getAccount tx)
    (hnonce : tx.tx.nonce = (st.view.getAccount tx.sender).nonce)
    (hcost : totalCost tx.tx ≤ balanceOf st.view tx.sender)
    (hgas : tx.tx.intrinsicGas ≤ tx.tx.gasLimit.toNat) (hlt : tx.tx.nonce.toNat + 1 < 2 ^ 64) :
    ∃ st', executeOne E header db st tx = .ok st' ∧ Turn tx st.view st'.view := by
  obtain ⟨debited, hpre, hturn⟩ := preflight_turn hnonce hcost hgas hlt
  have hroute : ∃ result st', routeTx E tx header db st = .ok (result, st') ∧
      Turn tx st.view st'.view := by
    unfold routeTx
    split
    · rename_i vs _ _
      have hstaking : ∃ result s,
          executeStakingTx E tx header db vs st.delta st.view = .ok (result, s) := by
        unfold executeStakingTx
        rw [hpre]
        exact ⟨_, _, rfl⟩
      obtain ⟨result, s, hstaking⟩ := hstaking
      obtain ⟨run⟩ := executeStakingTx_ok hstaking
      have hdebited : run.debited = debited := Except.ok.inj (run.preflight_eq.symm.trans hpre)
      rw [hstaking]
      refine ⟨_, _, rfl, hturn.spares ?_⟩
      rw [run.settled_eq, ← hdebited]
      exact run.paid_spec.spares.trans
        ((spares_credit _ _ _).trans (spares_settleStakingValue _ _))
    · obtain ⟨hvm, hresolved⟩ := (hplain.of_vm fun dest _ => hturn.vm dest).resolveTarget
      obtain ⟨outcome, hrun⟩ := runTarget_of_evm E tx header hvm (resolveTarget tx debited).2
      unfold executeTx
      rw [hpre, ok_bind]
      dsimp only
      rw [hrun]
      refine ⟨_, _, rfl, hturn.spares (hresolved.trans ?_)⟩
      exact (spares_credit _ _ _).trans (spares_settleValue hvm _ _)
  obtain ⟨result, mid, hroute, hmid⟩ := hroute
  unfold executeOne
  rw [hroute]
  exact ⟨_, rfl, hmid.spares (spares_credit _ _ _)⟩

/-! ## All turns -/

def costOf (s : Address) (txs : List SignedTransaction) : Nat :=
  ((ofSender s txs).map fun tx => totalCost tx.tx).sum

theorem costOf_cons_self (txs : List SignedTransaction) :
    costOf tx.sender (tx :: txs) = totalCost tx.tx + costOf tx.sender txs := by
  unfold costOf
  rw [ofSender_cons_self, map_cons, sum_cons]

theorem costOf_cons_ne {s : Address} (h : tx.sender ≠ s) (txs : List SignedTransaction) :
    costOf s (tx :: txs) = costOf s txs := by
  unfold costOf
  rw [ofSender_cons_ne h]

structure Ready (view : StateView) (txs : List SignedTransaction) : Prop where
  consecutive : ∀ s, Consecutive s (view.getAccount s).nonce.toNat txs
  costs : ∀ tx ∈ txs, costOf tx.sender txs ≤ balanceOf view tx.sender
  gas_le : ∀ tx ∈ txs, tx.tx.intrinsicGas ≤ tx.tx.gasLimit.toNat
  nonce_lt : ∀ tx ∈ txs, tx.tx.nonce.toNat + 1 < 2 ^ 64
  plain : ∀ tx ∈ txs, Plain view.getAccount tx

theorem Ready.turn {txs : List SignedTransaction} (h : Ready view (tx :: txs))
    (hturn : Turn tx view view') : Ready view' txs := by
  refine ⟨?_, ?_, ?_, ?_, ?_⟩
  · intro s
    by_cases hs : tx.sender = s
    · subst hs
      rw [hturn.sender]
      exact (consecutive_cons_self.mp (h.consecutive tx.sender)).2
    · rw [hturn.others s (Ne.symm hs)]
      exact (consecutive_cons_ne hs).mp (h.consecutive s)
  · intro other hother
    have hcost := h.costs other (mem_cons_of_mem tx hother)
    have hne := (h.plain other (mem_cons_of_mem tx hother)).sender
    by_cases hs : tx.sender = other.sender
    · rw [← hs] at hcost hne ⊢
      rw [costOf_cons_self] at hcost
      have hpaid := hturn.paid hne
      omega
    · rw [costOf_cons_ne hs] at hcost
      exact hcost.trans (hturn.balance _ (Ne.symm hs) hne)
  · exact fun other hother => h.gas_le other (mem_cons_of_mem tx hother)
  · exact fun other hother => h.nonce_lt other (mem_cons_of_mem tx hother)
  · exact fun other hother => (h.plain other (mem_cons_of_mem tx hother)).of_vm
      fun dest _ => hturn.vm dest

theorem Ready.executes {txs : List SignedTransaction} {st : BlockState} (h : Ready st.view txs) :
    ∃ st', executeTxs E header db st txs = .ok st' := by
  induction txs generalizing st with
  | nil => exact ⟨st, rfl⟩
  | cons tx txs ih =>
    have hmem : tx ∈ tx :: txs := mem_cons_self
    have hnonce := (consecutive_cons_self.mp (h.consecutive tx.sender)).1
    have hcost := h.costs tx hmem
    rw [costOf_cons_self] at hcost
    obtain ⟨mid, hone, hturn⟩ := executeOne_turn E header db (h.plain tx hmem)
      (UInt64.toNat_inj.mp hnonce) (by omega) (h.gas_le tx hmem) (h.nonce_lt tx hmem)
    obtain ⟨st', hrest⟩ := ih (h.turn hturn)
    refine ⟨st', ?_⟩
    unfold executeTxs
    rw [hone]
    exact hrest

end ZbxChain

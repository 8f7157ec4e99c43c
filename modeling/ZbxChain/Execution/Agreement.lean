import ZbxChain.Execution.Reach
import ZbxChain.Lib.FiniteMap

/-!
# Views that agree on some accounts

Two views with the same changes may have been seeded differently. `Agree T` says that they show the
same record and code for every account in `T`.
-/

namespace ZbxChain

open ZvmStateAccess AccountState Interaction List

namespace StateView

structure Agree (T : Address → Prop) (v w : StateView) : Prop where
  diffs : v.diffs = w.diffs
  toDelete : v.toDelete = w.toDelete
  base : ∀ addr, T addr →
    (v.base.lookup addr).getD .default = (w.base.lookup addr).getD .default
  code : ∀ addr, T addr → (v.getAccount addr).isContract = true →
    v.codes.lookup (v.getAccount addr).codeHash = w.codes.lookup (v.getAccount addr).codeHash

variable {T : Address → Prop} {v w : StateView}

namespace Agree

variable (h : Agree T v w)
include h

variable {state : AccountState} {addr : Address}

theorem record (haddr : T addr) : v.record addr = w.record addr := by
  unfold StateView.record
  rw [h.diffs, h.base addr haddr]

theorem getAccount (haddr : T addr) : v.getAccount addr = w.getAccount addr := by
  unfold StateView.getAccount
  rw [h.toDelete, h.record haddr]

theorem getCode (haddr : T addr) : v.getCode addr = w.getCode addr := by
  unfold StateView.getCode
  dsimp only
  rw [← h.getAccount haddr]
  split
  · rename_i hcontract
    rw [h.code addr haddr hcontract]
  · rfl

theorem getStorage (addr : Address) (slot : H256) :
    v.getStorage addr slot = w.getStorage addr slot := by
  unfold StateView.getStorage
  rw [h.diffs]

theorem balanceOf (haddr : T addr) : balanceOf v addr = balanceOf w addr :=
  congrArg balanceU128 (h.getAccount haddr)

/-! ## Writes -/

theorem setStorage (addr : Address) (slot value : H256) :
    Agree T (v.setStorage addr slot value) (w.setStorage addr slot value) := by
  refine ⟨?_, h.toDelete, h.base, h.code⟩
  unfold StateView.setStorage
  rw [h.diffs]

theorem setLogs (logs : List Log) : Agree T (v.setLogs logs) (w.setLogs logs) := by
  refine ⟨?_, h.toDelete, h.base, h.code⟩
  unfold StateView.setLogs
  rw [h.diffs]

theorem seedCode (codeHash : H256) (code : Bytes) :
    Agree T (v.seedCode codeHash code) (w.seedCode codeHash code) := by
  refine ⟨h.diffs, h.toDelete, h.base, fun addr haddr hcontract => ?_⟩
  show (v.codes.insert codeHash code).lookup (v.getAccount addr).codeHash =
    (w.codes.insert codeHash code).lookup (v.getAccount addr).codeHash
  rw [FiniteMap.lookup_insert_eq, FiniteMap.lookup_insert_eq]
  split
  · rfl
  · exact h.code addr haddr hcontract

theorem selfdestruct (addr : Address) : Agree T (v.selfdestruct addr) (w.selfdestruct addr) := by
  refine ⟨?_, ?_, h.base, fun other hother hcontract => ?_⟩
  · unfold StateView.selfdestruct
    rw [h.diffs]
  · exact congrArg (insert addr) h.toDelete
  by_cases heq : other = addr
  · rw [heq, getAccount_selfdestruct_self] at hcontract
    cases hcontract
  · rw [getAccount_selfdestruct_ne v heq] at hcontract ⊢
    exact h.code other hother hcontract

theorem setAccount (haddr : T addr)
    (hcode : state.isContract = true → v.codes.lookup state.codeHash = w.codes.lookup state.codeHash) :
    Agree T (v.setAccount addr state) (w.setAccount addr state) := by
  have hv := sameStores_setAccount v addr state
  have hw := sameStores_setAccount w addr state
  refine ⟨?_, ?_, ?_, ?_⟩
  · unfold StateView.setAccount
    rw [h.toDelete, h.record haddr]
    split
    · rw [h.diffs]
    · unfold putAccount
      rw [h.diffs]
  · unfold StateView.setAccount putAccount
    rw [h.toDelete]
    split <;> rfl
  · rw [hv.base, hw.base]
    exact h.base
  intro other hother
  rw [hv.codes, hw.codes]
  by_cases heq : other = addr
  · subst heq
    rw [getAccount_setAccount_self]
    rcases guardAccount_codeHash (v.getAccount other) state with hprior | hstate
    · intro hcontract
      have hprior' : (guardAccount (v.getAccount other) state).isContract =
          (v.getAccount other).isContract := by
        unfold isContract isEoa
        rw [hprior]
      rw [hprior]
      exact h.code other hother (hprior' ▸ hcontract)
    intro hcontract
    have hstate' : (guardAccount (v.getAccount other) state).isContract =
        state.isContract := by
      unfold isContract isEoa
      rw [hstate]
    rw [hstate]
    exact hcode (hstate' ▸ hcontract)
  · rw [getAccount_setAccount_ne state heq]
    exact h.code other hother

theorem setAccount_of_codeHash (haddr : T addr)
    (hcode : state.codeHash = (v.getAccount addr).codeHash) :
    Agree T (v.setAccount addr state) (w.setAccount addr state) := by
  refine h.setAccount haddr fun hcontract => ?_
  rw [hcode]
  refine h.code addr haddr ?_
  unfold isContract isEoa at hcontract ⊢
  rwa [hcode] at hcontract

theorem setBalance (haddr : T addr) (wei : Nat) :
    Agree T (setBalance v addr wei) (setBalance w addr wei) := by
  have hw : ZvmStateAccess.setBalance w addr wei =
      w.setAccount addr ((v.getAccount addr).setBalanceU128 wei) := by
    rw [h.getAccount haddr]
    rfl
  rw [hw]
  exact h.setAccount_of_codeHash haddr rfl

theorem credit (haddr : T addr) (amount : Nat) :
    Agree T (credit v addr amount) (credit w addr amount) := by
  unfold ZvmStateAccess.credit
  rw [h.balanceOf haddr]
  exact h.setBalance haddr _

end Agree

end StateView

open StateView

/-! ## The host -/

def Zvm.HostCall.accounts : Zvm.HostCall → List Address
  | .balance addr | .code addr | .codeHash addr | .nonce addr | .incNonce addr
  | .setCode addr _ | .burnZbx addr _ | .isCallAllowed addr => [addr]
  | .transfer src dst _ | .selfdestruct src dst => [src, dst]
  | _ => []

namespace ProductionZvmHost

structure Agree (T : Address → Prop) (host host' : ProductionZvmHost StateView) : Prop where
  state : StateView.Agree T host.state host'.state
  env : host.env = host'.env
  transient : host.transient = host'.transient
  callerVm : host.callerVm = host'.callerVm
  createdThisTx : host.createdThisTx = host'.createdThisTx
  pendingDestructs : host.pendingDestructs = host'.pendingDestructs

variable {T : Address → Prop} {host host' : ProductionZvmHost StateView}

namespace Agree

variable (h : Agree T host host')
include h

theorem withState {view view' : StateView} (hview : StateView.Agree T view view') :
    Agree T { host with state := view } { host' with state := view' } :=
  ⟨hview, h.env, h.transient, h.callerVm, h.createdThisTx, h.pendingDestructs⟩

variable {addr : Address}

theorem balance (haddr : T addr) : host.balance addr = host'.balance addr :=
  h.state.balanceOf haddr

theorem account (haddr : T addr) :
    ZvmStateAccess.getAccount host.state addr = ZvmStateAccess.getAccount host'.state addr :=
  h.state.getAccount haddr

theorem transfer {src dst : Address} (hsrc : T src) (hdst : T dst) (amount : Nat) :
    (host.transfer src dst amount).1 = (host'.transfer src dst amount).1 ∧
      Agree T (host.transfer src dst amount).2 (host'.transfer src dst amount).2 := by
  have hbal := h.balance hsrc
  by_cases hlt : host.balance src < amount
  · rw [transfer_of_lt hlt, transfer_of_lt (hbal ▸ hlt)]
    exact ⟨rfl, h⟩
  have hle := Nat.le_of_not_lt hlt
  rw [transfer_of_le hle, transfer_of_le (hbal ▸ hle), ← hbal]
  exact ⟨rfl, h.withState ((h.state.setBalance hsrc _).credit hdst amount)⟩

theorem burnZbx (haddr : T addr) (amount : Nat) :
    (host.burnZbx addr amount).1 = (host'.burnZbx addr amount).1 ∧
      Agree T (host.burnZbx addr amount).2 (host'.burnZbx addr amount).2 := by
  have hbal := h.balance haddr
  by_cases hlt : host.balance addr < amount
  · rw [burnZbx_of_lt hlt, burnZbx_of_lt (hbal ▸ hlt)]
    exact ⟨rfl, h⟩
  have hle := Nat.le_of_not_lt hlt
  rw [burnZbx_of_le hle, burnZbx_of_le (hbal ▸ hle), ← hbal]
  exact ⟨rfl, h.withState (h.state.setBalance haddr _)⟩

theorem incNonce (haddr : T addr) : (host.incNonce addr).1 = (host'.incNonce addr).1 ∧
      Agree T (host.incNonce addr).2 (host'.incNonce addr).2 := by
  have hacct := h.account haddr
  unfold ProductionZvmHost.incNonce
  rw [← hacct]
  exact ⟨rfl, h.withState (h.state.setAccount_of_codeHash haddr rfl)⟩

theorem setCode (haddr : T addr) (code : Bytes) :
    Agree T (host.setCode addr code) (host'.setCode addr code) := by
  have hseeded := h.state.seedCode (keccak256 code) code
  have hacct := hseeded.getAccount haddr
  have hset : host'.setCode addr code = { host' with
      state := (host'.state.seedCode (keccak256 code) code).setAccount addr
        { (host.state.seedCode (keccak256 code) code).getAccount addr with
          codeHash := keccak256 code, vm := .zvm } } := by
    rw [hacct]
    rfl
  rw [hset]
  refine h.withState (hseeded.setAccount haddr fun _ => ?_)
  show (host.state.codes.insert (keccak256 code) code).lookup (keccak256 code) =
    (host'.state.codes.insert (keccak256 code) code).lookup (keccak256 code)
  rw [AList.lookup_insert, AList.lookup_insert]

theorem isCallAllowed (haddr : T addr) : host.isCallAllowed addr = host'.isCallAllowed addr := by
  have hacct := h.account haddr
  unfold ProductionZvmHost.isCallAllowed
  rw [hacct, h.callerVm]

theorem selfdestruct {contract beneficiary : Address} (hcontract : T contract)
    (hbeneficiary : T beneficiary) :
    Agree T (host.selfdestruct contract beneficiary) (host'.selfdestruct contract beneficiary) := by
  have hbal := h.balance hcontract
  have hswept := (h.transfer hcontract hbeneficiary (host.balance contract)).2
  unfold ProductionZvmHost.selfdestruct
  dsimp only
  rw [← hbal]
  split
  · exact ⟨hswept.state, hswept.env, hswept.transient, hswept.callerVm, hswept.createdThisTx,
      congrArg (· ++ [(contract, beneficiary)]) hswept.pendingDestructs⟩
  · exact ⟨h.state, h.env, h.transient, h.callerVm, h.createdThisTx,
      congrArg (· ++ [(contract, beneficiary)]) h.pendingDestructs⟩

theorem storageReader : getStorageWord host.state = getStorageWord host'.state := by
  funext addr slot
  exact h.state.getStorage addr slot

theorem resolvePayIdBytes : host.resolvePayIdBytes = host'.resolvePayIdBytes := by
  funext name
  unfold ProductionZvmHost.resolvePayIdBytes
  rw [h.storageReader]

theorem reversePayId : host.reversePayId = host'.reversePayId := by
  funext addr
  unfold ProductionZvmHost.reversePayId
  rw [h.storageReader]

theorem emitLog (log : Log) : Agree T { host with state := host.state.emitLog log }
      { host' with state := host'.state.emitLog log } := by
  have hlogs : host.state.diffs.logs = host'.state.diffs.logs := by rw [h.state.diffs]
  refine h.withState ?_
  have hset : host'.state.emitLog log =
      host'.state.setLogs (host.state.diffs.logs ++ [log]) := by
    rw [hlogs]
    rfl
  rw [hset]
  exact h.state.setLogs _

end Agree

theorem answer_agree (h : Agree T host host') (c : Zvm.HostCall)
    (hc : ∀ addr ∈ c.accounts, T addr) :
    (answer c host).1 = (answer c host').1 ∧ Agree T (answer c host).2 (answer c host').2 := by
  cases c with
  | balance addr => exact ⟨h.balance (hc addr mem_cons_self), h⟩
  | storageLoad addr key => exact ⟨h.state.getStorage addr key, h⟩
  | storageStore addr key value => exact ⟨rfl, h.withState (h.state.setStorage addr key value)⟩
  | code addr => exact ⟨h.state.getCode (hc addr mem_cons_self), h⟩
  | codeHash addr => exact ⟨congrArg codeHash (h.account (hc addr mem_cons_self)), h⟩
  | transfer src dst amount =>
    exact h.transfer (hc src mem_cons_self)
      (hc dst (mem_cons_of_mem _ mem_cons_self)) amount
  | nonce addr =>
    exact ⟨congrArg (fun a => a.nonce.toNat) (h.account (hc addr mem_cons_self)), h⟩
  | incNonce addr => exact h.incNonce (hc addr mem_cons_self)
  | setCode addr code => exact ⟨rfl, h.setCode (hc addr mem_cons_self) code⟩
  | resolvePayId payId => exact ⟨congrFun h.resolvePayIdBytes _, h⟩
  | payIdLookup => exact ⟨congrArg₂ Zvm.PayIdLookup.mk h.resolvePayIdBytes h.reversePayId, h⟩
  | storageReader => exact ⟨h.storageReader, h⟩
  | burnZbx addr amount => exact h.burnZbx (hc addr mem_cons_self) amount
  | transientLoad addr key =>
    exact ⟨congrArg (fun t => (AList.lookup (addr, key) t).getD 0) h.transient, h⟩
  | transientStore addr key value =>
    refine ⟨rfl, h.state, h.env, ?_, h.callerVm, h.createdThisTx, h.pendingDestructs⟩
    show host.transient.insert (addr, key) value = host'.transient.insert (addr, key) value
    rw [h.transient]
  | coinbase => exact ⟨congrArg ZvmBlockEnv.coinbase h.env, h⟩
  | blockGasLimit => exact ⟨congrArg ZvmBlockEnv.blockGasLimit h.env, h⟩
  | prevrandao => exact ⟨congrArg ZvmBlockEnv.prevrandao h.env, h⟩
  | gasPrice => exact ⟨congrArg ZvmBlockEnv.gasPrice h.env, h⟩
  | blobHash i =>
    refine ⟨?_, h⟩
    show host.env.blobHashes[i]?.getD 0 = host'.env.blobHashes[i]?.getD 0
    rw [h.env]
  | isCallAllowed target => exact ⟨h.isCallAllowed (hc target mem_cons_self), h⟩
  | markCreatedThisTx addr =>
    exact ⟨rfl, h.state, h.env, h.transient, h.callerVm, congrArg (insert addr) h.createdThisTx,
      h.pendingDestructs⟩
  | selfdestruct contract beneficiary =>
    exact ⟨rfl, h.selfdestruct (hc contract mem_cons_self)
      (hc beneficiary (mem_cons_of_mem _ mem_cons_self))⟩
  | emitLog addr topics data => exact ⟨rfl, h.emitLog _⟩
  | blockHash block | zusdBalance addr | zbxPriceUsd | blobBaseFee | hasPayId addr
  | emitZvmLog key value => exact ⟨rfl, h⟩

theorem run_agree {α : Type} {p : Zvm.HostM α} (h : Agree T host host')
    (hp : ∀ q ∈ requests handle p host, ∀ addr ∈ q.call.accounts, T addr) :
    (run handle p host).1 = (run handle p host').1 ∧
      Agree T (run handle p host).2 (run handle p host').2 := by
  have hstep : ∀ q ∈ requests handle p host, ∀ s t, Agree T s t →
      (handle q s).1 = (handle q t).1 ∧ Agree T (handle q s).2 (handle q t).2 :=
    fun q hq s t hst => answer_agree hst q.call (hp q hq)
  obtain ⟨hval, -, hstate⟩ := run_simulates hstep h
  exact ⟨hval, hstate⟩

end ProductionZvmHost

end ZbxChain

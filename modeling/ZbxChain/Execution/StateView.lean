import Mathlib.Data.Finset.Erase
import ZbxChain.State.HostZvm
import ZbxChain.State.Mpt

/-!
# The state view of a block

`StateView` of `zbx-execution/src/executor.rs`: the accounts and codes that were seeded,
and the changes that a block makes on top. The guards of `set_account` are those of a
release build, which corrects a bad record and goes on.
-/

namespace ZbxChain

open AccountState

structure StateDiff where
  accounts : Map Address AccountState
  storage : Map Address (Map H256 H256)
  deleted : List Address
  logs : List Log

structure StateView where
  base : Map Address AccountState
  codes : Map H256 Bytes
  diffs : StateDiff
  toDelete : Finset Address

namespace StateView

def new : StateView := ⟨∅, ∅, ⟨∅, ∅, [], []⟩, ∅⟩

variable (view : StateView) (addr : Address) (state : AccountState)

def selfdestruct : StateView :=
  { view with
    diffs := { view.diffs with
      accounts := view.diffs.accounts.erase addr
      storage := view.diffs.storage.erase addr
      deleted := view.diffs.deleted ++ [addr] }
    toDelete := insert addr view.toDelete }

def isDeleted : Bool := addr ∈ view.toDelete

def seedAccount : StateView :=
  { view with base := view.base.insert addr state }

def seedCode (codeHash : H256) (code : Bytes) : StateView :=
  { view with codes := view.codes.insert codeHash code }

def record : AccountState :=
  (view.diffs.accounts.lookup addr).getD ((view.base.lookup addr).getD .default)

def getAccount : AccountState :=
  if addr ∈ view.toDelete then .default else view.record addr

def getCode : Bytes :=
  let acct := view.getAccount addr
  if acct.isContract then (view.codes.lookup acct.codeHash).getD [] else []

/-- The guards of `set_account`: a nonce that would go back and a code hash that would
change keep their old value. Only the first violation is corrected. -/
def guardAccount (prior state : AccountState) : AccountState :=
  if state.nonce < prior.nonce then { state with nonce := prior.nonce }
  else if prior.isContract ∧ state.codeHash ≠ prior.codeHash ∧ state.codeHash ≠ emptyCodeHash then
    { state with codeHash := prior.codeHash }
  else state

def putAccount : StateView :=
  { view with diffs := { view.diffs with accounts := view.diffs.accounts.insert addr state } }

def setAccount : StateView :=
  if addr ∈ view.toDelete then
    { view with
      diffs := { view.diffs with
        accounts := view.diffs.accounts.insert addr state
        deleted := view.diffs.deleted.filter (· ≠ addr) }
      toDelete := view.toDelete.erase addr }
  else view.putAccount addr (guardAccount (view.record addr) state)

def getStorage (slot : H256) : H256 :=
  match view.diffs.storage.lookup addr with
  | some slots => (slots.lookup slot).getD 0
  | none => 0

def setStorage (slot value : H256) : StateView :=
  let slots := (view.diffs.storage.lookup addr).getD ∅
  { view with diffs := { view.diffs with
      storage := view.diffs.storage.insert addr (slots.insert slot value) } }

def emitLog (log : Log) : StateView :=
  { view with diffs := { view.diffs with logs := view.diffs.logs ++ [log] } }

instance : ZvmStateAccess StateView where
  getAccount := getAccount
  setAccount := setAccount
  getStorageWord := getStorage
  setStorageWord := setStorage
  getCodeFor := getCode
  seedCode := seedCode
  emitLog := emitLog

/-- The accounts of `entries` that are not tombstoned, written over `visible`. -/
def addVisible (toDelete : Finset Address) (visible : Map Address AccountState)
    (entries : List ((_ : Address) × AccountState)) : Map Address AccountState :=
  entries.foldl (fun m e => if e.1 ∈ toDelete then m else m.insert e.1 e.2) visible

/-- `(base ∪ dirty) \ to_delete`. -/
def visible : Map Address AccountState :=
  addVisible view.toDelete (addVisible view.toDelete ∅ view.base.entries)
    view.diffs.accounts.entries

def stateRootWithDb {DB : Type} [TrieDB DB] (view : StateView) (db : DB) : TrieResult H256 :=
  Mpt.computeStateRootWithDb view.visible view.diffs.storage db

/-! ## Reading after writing -/

variable (prior state : AccountState)

@[simp] theorem guardAccount_balance : (guardAccount prior state).balance = state.balance := by
  unfold guardAccount
  split_ifs <;> rfl

@[simp] theorem guardAccount_default : guardAccount .default state = state := by
  have hnonce : ¬ state.nonce < AccountState.default.nonce := by
    simp [AccountState.default, UInt64.lt_iff_toNat_lt]
  have hcode : AccountState.default.isContract = false := by
    simp [AccountState.isContract, AccountState.isEoa, AccountState.default]
  simp [guardAccount, hnonce, hcode]

theorem guardAccount_of_le {prior state : AccountState} (hnonce : prior.nonce ≤ state.nonce)
    (hcode : state.codeHash = prior.codeHash) : guardAccount prior state = state := by
  simp [guardAccount, UInt64.not_lt.mpr hnonce, hcode]

theorem guardAccount_codeHash : (guardAccount prior state).codeHash = prior.codeHash ∨
      (guardAccount prior state).codeHash = state.codeHash := by
  unfold guardAccount
  split_ifs
  · exact .inr rfl
  · exact .inl rfl
  · exact .inr rfl

theorem getAccount_setAccount_self (view : StateView) (addr : Address) (state : AccountState) :
    (view.setAccount addr state).getAccount addr = guardAccount (view.getAccount addr) state := by
  unfold setAccount getAccount
  by_cases h : addr ∈ view.toDelete
  · simp [h, record]
  · simp [h, record, putAccount]

variable {addr other : Address} {view view' : StateView}

theorem getAccount_setAccount_ne (h : other ≠ addr) :
    (view.setAccount addr state).getAccount other = view.getAccount other := by
  unfold setAccount getAccount
  by_cases hd : addr ∈ view.toDelete
  · simp [hd, record, h, AList.lookup_insert_ne]
  · simp [hd, record, putAccount, h, AList.lookup_insert_ne]

theorem getAccount_selfdestruct_self (view : StateView) (addr : Address) :
    (view.selfdestruct addr).getAccount addr = .default :=
  if_pos (Finset.mem_insert_self _ _)

theorem getAccount_selfdestruct_ne (view : StateView) (h : other ≠ addr) :
    (view.selfdestruct addr).getAccount other = view.getAccount other := by
  simp [selfdestruct, getAccount, record, h, AList.lookup_erase_ne]

structure SameStores (view view' : StateView) : Prop where
  base : view'.base = view.base
  codes : view'.codes = view.codes
  storage : view'.diffs.storage = view.diffs.storage
  logs : view'.diffs.logs = view.diffs.logs

theorem sameStores_setAccount (view : StateView) (addr : Address) (state : AccountState) :
    SameStores view (view.setAccount addr state) := by
  unfold setAccount
  split <;> exact ⟨rfl, rfl, rfl, rfl⟩

theorem SameStores.refl (view : StateView) : SameStores view view := ⟨rfl, rfl, rfl, rfl⟩

theorem SameStores.trans {a b c : StateView} (hab : SameStores a b) (hbc : SameStores b c) :
    SameStores a c :=
  ⟨hbc.base.trans hab.base, hbc.codes.trans hab.codes, hbc.storage.trans hab.storage,
    hbc.logs.trans hab.logs⟩

theorem SameStores.getStorage_eq (h : SameStores view view') (addr : Address) (slot : H256) :
    view'.getStorage addr slot = view.getStorage addr slot := by
  unfold getStorage
  rw [h.storage]

theorem SameStores.getCode_eq (h : SameStores view view')
    (hcode : (view'.getAccount addr).codeHash = (view.getAccount addr).codeHash) :
    view'.getCode addr = view.getCode addr := by
  unfold getCode isContract isEoa
  dsimp only
  rw [h.codes, hcode]

theorem guardAccount_nonce_le : prior.nonce ≤ (guardAccount prior state).nonce := by
  unfold guardAccount
  split_ifs with hnonce hcode
  · exact UInt64.le_refl _
  · exact UInt64.not_lt.mp hnonce
  · exact UInt64.not_lt.mp hnonce

theorem guardAccount_nonce_ge : state.nonce ≤ (guardAccount prior state).nonce := by
  unfold guardAccount
  split_ifs with hnonce hcode
  · exact UInt64.le_of_lt hnonce
  · exact UInt64.le_refl _
  · exact UInt64.le_refl _

theorem nonce_le_setAccount (view : StateView) (addr other : Address) (state : AccountState) :
    (view.getAccount other).nonce ≤ ((view.setAccount addr state).getAccount other).nonce := by
  by_cases h : other = addr
  · rw [h, getAccount_setAccount_self]
    exact guardAccount_nonce_le _ _
  · rw [getAccount_setAccount_ne state h]
    exact UInt64.le_refl _

/-! ## Balances -/

open ZvmStateAccess

theorem getAccount_setBalance_self (view : StateView) (addr : Address) (wei : Nat) :
    (setBalance view addr wei).getAccount addr = (view.getAccount addr).setBalanceU128 wei := by
  refine (getAccount_setAccount_self view addr _).trans ?_
  exact guardAccount_of_le (UInt64.le_refl _) rfl

variable (wei : Nat)

theorem getAccount_setBalance_ne (h : other ≠ addr) :
    (setBalance view addr wei).getAccount other = view.getAccount other :=
  getAccount_setAccount_ne _ h

theorem balanceOf_setBalance_self (view : StateView) (addr : Address) {wei : Nat}
    (h : wei < 2 ^ 128) : balanceOf (setBalance view addr wei) addr = wei := by
  show ((setBalance view addr wei).getAccount addr).balanceU128 = wei
  rw [getAccount_setBalance_self, balanceU128_setBalanceU128 _ h]

theorem balanceOf_setBalance_ne (h : other ≠ addr) :
    balanceOf (setBalance view addr wei) other = balanceOf view other :=
  congrArg balanceU128 (getAccount_setBalance_ne wei h)

theorem getAccount_setBalance (view : StateView) (addr other : Address) (wei : Nat) :
    ∃ bal, (setBalance view addr wei).getAccount other =
      { view.getAccount other with balance := bal } := by
  by_cases h : other = addr
  · rw [h, getAccount_setBalance_self]
    exact ⟨_, rfl⟩
  · rw [getAccount_setBalance_ne wei h]
    exact ⟨_, rfl⟩

theorem sameStores_setBalance (view : StateView) (addr : Address) (wei : Nat) :
    SameStores view (setBalance view addr wei) :=
  sameStores_setAccount view addr _

end StateView

/-!
## Calls of the host on a state view

What the methods of the ZVM host do to the view: a method that writes does so through
`setAccount`, `setStorage`, `seedCode` and `emitLog` (`answer_writes`), and the others
leave the host as it is (`answer_of_not_writes`).
-/

open Zvm

def Zvm.HostCall.writes : HostCall → Bool
  | .storageStore .. | .transfer .. | .incNonce _ | .setCode .. | .burnZbx ..
  | .transientStore .. | .markCreatedThisTx _ | .selfdestruct .. | .emitLog .. => true
  | _ => false

namespace StateView

inductive Writes (view : StateView) : StateView → Prop
  | refl : Writes view view
  | account {view'} (addr : Address) (state : AccountState) (h : Writes view view') :
      Writes view (view'.setAccount addr state)
  | storage {view'} (addr : Address) (slot value : H256) (h : Writes view view') :
      Writes view (view'.setStorage addr slot value)
  | code {view'} (codeHash : H256) (code : Bytes) (h : Writes view view') :
      Writes view (view'.seedCode codeHash code)
  | log {view'} (log : Log) (h : Writes view view') : Writes view (view'.emitLog log)

variable {view view' : StateView}

theorem Writes.trans {view'' : StateView} (h : Writes view view') (h' : Writes view' view'') :
    Writes view view'' := by
  induction h' with
  | refl => exact h
  | account addr state _ ih => exact .account addr state ih
  | storage addr slot value _ ih => exact .storage addr slot value ih
  | code codeHash code _ ih => exact .code codeHash code ih
  | log log _ ih => exact .log log ih

theorem Writes.nonce_le (h : Writes view view') (addr : Address) :
    (view.getAccount addr).nonce ≤ (view'.getAccount addr).nonce := by
  induction h with
  | refl => exact UInt64.le_refl _
  | account addr' state _ ih => exact UInt64.le_trans ih (nonce_le_setAccount _ _ _ _)
  | storage _ _ _ _ ih | code _ _ _ ih | log _ _ ih => exact ih

end StateView

namespace ProductionZvmHost

open ZvmStateAccess StateView

theorem answer_of_not_writes {S : Type} [ZvmStateAccess S] {c : HostCall} (h : c.writes = false)
    (host : ProductionZvmHost S) : (answer c host).2 = host := by
  cases c <;> first | rfl | cases h

variable (host : ProductionZvmHost StateView)

variable (src dst : Address) (amount : Nat)

theorem transfer_writes : Writes host.state (host.transfer src dst amount).2.state := by
  by_cases h : host.balance src < amount
  · rw [transfer_of_lt h]
    exact .refl
  · rw [transfer_of_le (Nat.le_of_not_lt h)]
    exact .account _ _ (.account _ _ .refl)

theorem answer_writes (c : HostCall) : Writes host.state (answer c host).2.state := by
  by_cases hc : c.writes = false
  · rw [answer_of_not_writes hc]
    exact .refl
  cases c <;> first | exact absurd rfl hc | skip
  case storageStore addr key value => exact .storage _ _ _ .refl
  case transfer src dst amount => exact transfer_writes host src dst amount
  case incNonce addr => exact .account _ _ .refl
  case setCode addr code => exact .account _ _ (.code _ _ .refl)
  case burnZbx addr amount =>
    show Writes host.state (host.burnZbx addr amount).2.state
    by_cases h : host.balance addr < amount
    · rw [burnZbx_of_lt h]
      exact .refl
    · rw [burnZbx_of_le (Nat.le_of_not_lt h)]
      exact .account _ _ .refl
  case transientStore addr key value => exact .refl
  case markCreatedThisTx addr => exact .refl
  case selfdestruct contract beneficiary =>
    show Writes host.state (host.selfdestruct contract beneficiary).state
    unfold selfdestruct
    dsimp only
    split
    · exact transfer_writes host contract beneficiary _
    · exact .refl
  case emitLog addr topics data => exact .log _ .refl

theorem getAccount_incNonce_ne {addr other : Address} (h : other ≠ addr) :
    (host.incNonce addr).2.state.getAccount other = host.state.getAccount other :=
  getAccount_setAccount_ne _ h

variable (addr : Address)

theorem nonce_incNonce_pos : 0 < ((host.incNonce addr).2.state.getAccount addr).nonce.toNat := by
  have hself : (host.incNonce addr).2.state.getAccount addr = _ :=
    getAccount_setAccount_self host.state addr _
  rw [hself]
  refine Nat.lt_of_lt_of_le ?_ (UInt64.le_iff_toNat_le.mp (guardAccount_nonce_ge _ _))
  dsimp only
  split
  · rename_i hlt
    rw [UInt64.toNat_add, UInt64.toNat_one, Nat.mod_eq_of_lt hlt]
    exact Nat.succ_pos _
  · omega

theorem getAccount_transfer : ∃ bal, (host.transfer src dst amount).2.state.getAccount addr =
      { host.state.getAccount addr with balance := bal } := by
  by_cases h : host.balance src < amount
  · rw [transfer_of_lt h]
    exact ⟨_, rfl⟩
  rw [transfer_of_le (Nat.le_of_not_lt h)]
  obtain ⟨bal, hbal⟩ := getAccount_setBalance host.state src addr (host.balance src - amount)
  obtain ⟨bal', hbal'⟩ := getAccount_setBalance
    (setBalance host.state src (host.balance src - amount)) dst addr
    (satAddU128 (balanceOf (setBalance host.state src (host.balance src - amount)) dst) amount)
  exact ⟨bal', hbal'.trans (by rw [hbal])⟩

theorem sameStores_transfer : SameStores host.state (host.transfer src dst amount).2.state := by
  by_cases h : host.balance src < amount
  · rw [transfer_of_lt h]
    exact .refl _
  · rw [transfer_of_le (Nat.le_of_not_lt h)]
    exact (sameStores_setBalance _ _ _).trans (sameStores_setBalance _ _ _)

variable {host}

theorem balance_lt : host.balance addr < 2 ^ 128 :=
  AccountState.balanceU128_lt _

theorem balance_transfer_src {src dst : Address} {amount : Nat} (hne : src ≠ dst)
    (h : amount ≤ host.balance src) :
    (host.transfer src dst amount).2.balance src = host.balance src - amount := by
  rw [transfer_of_le h]
  have hlt := host.balance_lt src
  exact (balanceOf_setBalance_ne _ hne).trans (balanceOf_setBalance_self _ _ (by omega))

theorem balance_transfer_self {src : Address} {amount : Nat} (h : amount ≤ host.balance src)
    (addr : Address) : (host.transfer src src amount).2.balance addr = host.balance addr := by
  rw [transfer_of_le h]
  have hlt := host.balance_lt src
  show balanceOf (credit _ src amount) addr = _
  unfold credit
  rw [balanceOf_setBalance_self host.state src (show host.balance src - amount < 2 ^ 128 by omega)]
  have hsum : satAddU128 (host.balance src - amount) amount = host.balance src := by
    unfold satAddU128
    omega
  rw [hsum]
  by_cases ha : addr = src
  · rw [ha, balanceOf_setBalance_self _ _ hlt]
  · rw [balanceOf_setBalance_ne _ ha, balanceOf_setBalance_ne _ ha]
    rfl

variable (host)

theorem run_writes {α : Type} (p : HostM α) :
    Writes host.state (Interaction.run handle p host).2.state :=
  Interaction.run_invariant (P := fun h : ProductionZvmHost StateView => Writes host.state h.state)
    (fun q _ h hw => hw.trans (answer_writes h q.call)) .refl

end ProductionZvmHost

end ZbxChain

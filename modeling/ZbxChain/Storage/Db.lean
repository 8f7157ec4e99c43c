import Mathlib.Data.List.Sort
import Mathlib.Data.List.AList
import ZbxChain.Crypto.Keccak

/-!
# Accounts

The account record of `zbx-types/src/account.rs`.
-/

namespace ZbxChain

inductive VmKind
  | evm
  | zvm
  deriving DecidableEq, Repr

abbrev emptyStorageRoot : H256 := emptyRoot

structure AccountState where
  nonce : UInt64
  balance : U256
  codeHash : H256
  storageRoot : H256
  vm : VmKind
  deriving DecidableEq, Repr

namespace AccountState

protected def default : AccountState := ⟨0, 0, emptyCodeHash, emptyStorageRoot, .evm⟩

instance : Inhabited AccountState := ⟨AccountState.default⟩

variable (a : AccountState)

def isEoa : Bool := a.codeHash = emptyCodeHash

def isContract : Bool := !a.isEoa

def isEmpty : Bool := a.nonce = 0 && a.balance = 0 && a.isEoa

/-- The balance as a `u128`, `u128::MAX` when it does not fit. -/
def balanceU128 : Nat :=
  if 2 ^ 128 ≤ a.balance.toNat then 2 ^ 128 - 1 else a.balance.toNat

def setBalanceU128 (wei : Nat) : AccountState :=
  { a with balance := BitVec.ofNat 256 wei }

/-- The nonce plus one; `none` is the overflow error. -/
def incrementNonce : Option AccountState :=
  if a.nonce.toNat + 1 < 2 ^ 64 then some { a with nonce := a.nonce + 1 } else none

variable (a : AccountState)

theorem balanceU128_le : a.balanceU128 ≤ a.balance.toNat := by
  unfold balanceU128
  split <;> omega

theorem balanceU128_lt : a.balanceU128 < 2 ^ 128 := by
  unfold balanceU128
  split <;> omega

@[simp] theorem balanceU128_setBalanceU128 {wei : Nat} (h : wei < 2 ^ 128) :
    (a.setBalanceU128 wei).balanceU128 = wei := by
  have hmod : wei % 2 ^ 256 = wei := Nat.mod_eq_of_lt (by omega)
  simp only [balanceU128, setBalanceU128, BitVec.toNat_ofNat, hmod]
  rw [if_neg (by omega)]

theorem balance_setBalanceU128 {wei : Nat} (h : wei < 2 ^ 128) :
    (a.setBalanceU128 wei).balance.toNat = wei := by
  simp only [setBalanceU128, BitVec.toNat_ofNat]
  exact Nat.mod_eq_of_lt (by omega)

end AccountState

/-!
## The node's database

The columns of `ZbxDb` (`zbx-storage/src/db.rs`) that block execution reads and writes. Reads and
writes of RocksDB are taken to succeed.
-/

/-- A hash map; the order of its entries stands for its iteration order. -/
abbrev Map (κ ν : Type) := AList fun _ : κ => ν

structure ZbxDb where
  state : Map Address AccountState
  code : Map H256 Bytes
  trieNodes : Map H256 Bytes
  blocks : Map UInt64 Block
  latestHeight : Option UInt64
  /-- What a delegator has with a validator, keyed by validator and delegator. -/
  delegations : Map (Address × Address) Nat
  /-- Keyed by unlock height, delegator and validator. -/
  unbonding : Map (UInt64 × Address × Address) Nat

namespace ZbxDb

def empty : ZbxDb := ⟨∅, ∅, ∅, ∅, none, ∅, ∅⟩

variable (db : ZbxDb)

def getAccount (addr : Address) : AccountState :=
  (db.state.lookup addr).getD .default

def putAccount (addr : Address) (state : AccountState) : ZbxDb :=
  { db with state := db.state.insert addr state }

def getCode (codeHash : H256) : Bytes :=
  (db.code.lookup codeHash).getD []

def getTrieNode (hash : H256) : Option Bytes :=
  db.trieNodes.lookup hash

/-- One entry of a write batch; an empty value deletes. -/
def writeTrieNode (nodes : Map H256 Bytes) (entry : H256 × Bytes) : Map H256 Bytes :=
  if entry.2 = [] then nodes.erase entry.1 else nodes.insert entry.1 entry.2

def writeTrieNodes (batch : List (H256 × Bytes)) : ZbxDb :=
  { db with trieNodes := batch.foldl writeTrieNode db.trieNodes }

def forEachTrieNode : List (H256 × Nat) :=
  db.trieNodes.entries.map fun e => (e.1, e.2.length)

def deleteTrieNodes (hashes : List H256) : ZbxDb :=
  { db with trieNodes := hashes.foldl (fun nodes h => nodes.erase h) db.trieNodes }

def getLatestBlockNumber : Option UInt64 := db.latestHeight

def putBlock (block : Block) : ZbxDb :=
  let number := block.header.number
  { db with
    blocks := db.blocks.insert number block
    latestHeight := match db.latestHeight with
      | some height => if height < number then some number else some height
      | none => some number }

/-! ## Staking -/

def getDelegation (validator delegator : Address) : Nat :=
  (db.delegations.lookup (validator, delegator)).getD 0

def getUnbondingEntry (unlock : UInt64) (delegator validator : Address) : Nat :=
  (db.unbonding.lookup (unlock, delegator, validator)).getD 0

/-- The entries of `who` that are unlocked at a height, in the order of their keys: unlock height,
validator, amount. -/
def iterMaturedUnbondingsFor (who : Address) (height : UInt64) : List (UInt64 × Address × Nat) :=
  (db.unbonding.entries.filterMap fun e =>
    if e.1.1 ≤ height ∧ e.1.2.1 = who then some (e.1.1, e.1.2.2, e.2) else none).insertionSort
      fun a b => a.1 < b.1 ∨ (a.1 = b.1 ∧ a.2.1 ≤ b.2.1)

def writeDelegation (delegations : Map (Address × Address) Nat)
    (entry : (_ : Address × Address) × Nat) : Map (Address × Address) Nat :=
  if entry.2 = 0 then delegations.erase entry.1 else delegations.insert entry.1 entry.2

def applyStakingDelta (delegations : List ((_ : Address × Address) × Nat))
    (puts : List ((_ : UInt64 × Address × Address) × Nat))
    (deletes : List ((_ : UInt64 × Address × Address) × Unit)) : ZbxDb :=
  let unbonding := puts.foldl (fun m e => m.insert e.1 e.2) db.unbonding
  { db with
    delegations := delegations.foldl writeDelegation db.delegations
    unbonding := deletes.foldl (fun m e => m.erase e.1) unbonding }

end ZbxDb

end ZbxChain

import Mathlib.Data.Finset.Insert
import ZbxChain.Storage.Db
import ZbxChain.Zvm.Machine

/-!
# The ZVM host of block execution

`ProductionZvmHost` of `zbx-state/src/host_zvm.rs`, over any state with the methods of
`ZvmStateAccess`. `answer` has one arm for each method of the host.
-/

namespace ZbxChain

class ZvmStateAccess (S : Type) where
  getAccount : S → Address → AccountState
  setAccount : S → Address → AccountState → S
  getStorageWord : S → Address → H256 → H256
  setStorageWord : S → Address → H256 → H256 → S
  getCodeFor : S → Address → Bytes
  seedCode : S → H256 → Bytes → S
  emitLog : S → Log → S

namespace ZvmStateAccess

variable {S : Type} [ZvmStateAccess S]

def balanceOf (state : S) (addr : Address) : Nat := (getAccount state addr).balanceU128

def setBalance (state : S) (addr : Address) (wei : Nat) : S :=
  setAccount state addr ((getAccount state addr).setBalanceU128 wei)

def credit (state : S) (addr : Address) (amount : Nat) : S :=
  setBalance state addr (satAddU128 (balanceOf state addr) amount)

end ZvmStateAccess

structure ZvmBlockEnv where
  coinbase : Address
  blockGasLimit : Nat
  prevrandao : H256
  gasPrice : Nat
  blobHashes : List H256

def ZvmBlockEnv.fromHeader (header : BlockHeader) : ZvmBlockEnv where
  coinbase := header.coinbase
  blockGasLimit := header.gasLimit.toNat
  prevrandao := header.mixHash
  gasPrice := header.baseFeePerGas.toNat
  blobHashes := []

structure ProductionZvmHost (S : Type) where
  state : S
  env : ZvmBlockEnv
  transient : Map (Address × H256) H256
  callerVm : VmKind
  createdThisTx : Finset Address
  pendingDestructs : List (Address × Address)

/-! ## Pay IDs -/

namespace PayId

def registrarAddr : Address := 0xC0

def ascii (s : String) : Bytes := s.toList.map fun c => UInt8.ofNat c.toNat

def forwardSlot (name : Bytes) : H256 := keccak256 (ascii "payid/" ++ name)

def reverseSlot (addr : Address) : H256 := keccak256 (ascii "payid_rev/" ++ addr.toBytes)

/-- Lower-case letters, digits and `.`, `_`, `-`. -/
def nameChar (c : UInt8) : Bool :=
  (97 ≤ c && c ≤ 122) || (48 ≤ c && c ≤ 57) || c = 46 || c = 95 || c = 45

def validateName (name : Bytes) : Bool :=
  3 ≤ name.length && name.length ≤ 32 && name.all nameChar

def toAsciiLowercase (c : UInt8) : UInt8 := if 65 ≤ c ∧ c ≤ 90 then c + 32 else c

/-- `trim_end_matches("@zbx")` on the reversed string: every trailing copy goes. -/
def trimSuffix : Bytes → Bytes
  | 120 :: 98 :: 122 :: 64 :: rest => trimSuffix rest
  | s => s

end PayId

namespace ProductionZvmHost

open ZvmStateAccess Zvm

variable {S : Type} [ZvmStateAccess S]

def new (state : S) (env : ZvmBlockEnv) : ProductionZvmHost S where
  state := state
  env := env
  transient := ∅
  callerVm := .zvm
  createdThisTx := ∅
  pendingDestructs := []

variable (host : ProductionZvmHost S)

def balance (addr : Address) : Nat :=
  balanceOf host.state addr

def transfer (src dst : Address) (amount : Nat) : Except ZvmError Unit × ProductionZvmHost S :=
  let srcBal := host.balance src
  if srcBal < amount then (.error .insufficientBalance, host)
  else
    let debited := setBalance host.state src (srcBal - amount)
    (.ok (), { host with state := credit debited dst amount })

def burnZbx (addr : Address) (amount : Nat) : Except ZvmError Unit × ProductionZvmHost S :=
  let bal := host.balance addr
  if bal < amount then (.error .insufficientBalance, host)
  else (.ok (), { host with state := setBalance host.state addr (bal - amount) })

variable {host} {addr dst src : Address} {amount : Nat}

theorem transfer_of_lt (h : host.balance src < amount) :
    host.transfer src dst amount = (.error .insufficientBalance, host) := if_pos h

theorem transfer_of_le (h : amount ≤ host.balance src) :
    host.transfer src dst amount = (.ok (), { host with
      state := credit (setBalance host.state src (host.balance src - amount)) dst amount }) :=
  if_neg (Nat.not_lt.mpr h)

theorem burnZbx_of_lt (h : host.balance addr < amount) :
    host.burnZbx addr amount = (.error .insufficientBalance, host) := if_pos h

theorem burnZbx_of_le (h : amount ≤ host.balance addr) :
    host.burnZbx addr amount = (.ok (), { host with
      state := setBalance host.state addr (host.balance addr - amount) }) :=
  if_neg (Nat.not_lt.mpr h)

variable (host)

def incNonce (addr : Address) : Nat × ProductionZvmHost S :=
  let acct := getAccount host.state addr
  let nonce := if acct.nonce.toNat + 1 < 2 ^ 64 then acct.nonce + 1 else acct.nonce
  (nonce.toNat, { host with state := setAccount host.state addr { acct with nonce := nonce } })

def setCode (addr : Address) (code : Bytes) : ProductionZvmHost S :=
  let codeHash := keccak256 code
  let state := seedCode host.state codeHash code
  let acct := { getAccount state addr with codeHash := codeHash, vm := .zvm }
  { host with state := setAccount state addr acct }

def resolvePayIdBytes (name : Bytes) : Option Address :=
  if PayId.validateName name then
    let word := getStorageWord host.state PayId.registrarAddr (PayId.forwardSlot name)
    if word = 0 then none else some (word.setWidth 160)
  else none

def resolvePayId (payId : Bytes) : Option Address :=
  host.resolvePayIdBytes (PayId.trimSuffix (payId.map PayId.toAsciiLowercase).reverse).reverse

def reversePayId (addr : Address) : Option Bytes :=
  let word := getStorageWord host.state PayId.registrarAddr (PayId.reverseSlot addr)
  if word = 0 then none else some (word.toBytes.takeWhile (· ≠ 0))

def isCallAllowed (target : Address) : Bool :=
  let acct := getAccount host.state target
  if acct.isContract then acct.vm = host.callerVm else true

/-- The balance is swept at once, the account queued for the end of the transaction. -/
def selfdestruct (contract beneficiary : Address) : ProductionZvmHost S :=
  let bal := host.balance contract
  let swept := if 0 < bal then (host.transfer contract beneficiary bal).2 else host
  { swept with pendingDestructs := swept.pendingDestructs ++ [(contract, beneficiary)] }

def logOf (addr : Address) (topics : List H256) (data : Bytes) : Log where
  address := addr
  topics := topics
  data := data
  blockNumber := 0
  logIndex := 0
  transactionHash := 0
  transactionIndex := 0

def answer : (c : HostCall) → ProductionZvmHost S → c.Reply × ProductionZvmHost S
  | .balance addr, host => (host.balance addr, host)
  | .storageLoad addr key, host => (getStorageWord host.state addr key, host)
  | .storageStore addr key value, host =>
    ((), { host with state := setStorageWord host.state addr key value })
  | .code addr, host => (getCodeFor host.state addr, host)
  | .codeHash addr, host => ((getAccount host.state addr).codeHash, host)
  | .blockHash _, host => ((0 : H256), host)
  | .transfer src dst amount, host => host.transfer src dst amount
  | .nonce addr, host => ((getAccount host.state addr).nonce.toNat, host)
  | .incNonce addr, host => host.incNonce addr
  | .setCode addr code, host => ((), host.setCode addr code)
  | .resolvePayId payId, host => (host.resolvePayId payId, host)
  | .payIdLookup, host => (⟨host.resolvePayIdBytes, host.reversePayId⟩, host)
  | .storageReader, host => (getStorageWord host.state, host)
  | .zusdBalance _, host => ((0 : Nat), host)
  | .zbxPriceUsd, host => ((0 : Nat), host)
  | .blobBaseFee, host => ((1 : Nat), host)
  -- the default method of the trait
  | .hasPayId _, host => (false, host)
  | .burnZbx addr amount, host => host.burnZbx addr amount
  | .emitZvmLog _ _, host => ((), host)
  | .transientLoad addr key, host => ((host.transient.lookup (addr, key)).getD 0, host)
  | .transientStore addr key value, host =>
    ((), { host with transient := host.transient.insert (addr, key) value })
  | .coinbase, host => (host.env.coinbase, host)
  | .blockGasLimit, host => (host.env.blockGasLimit, host)
  | .prevrandao, host => (host.env.prevrandao, host)
  | .gasPrice, host => (host.env.gasPrice, host)
  | .blobHash i, host => (host.env.blobHashes[i]?.getD 0, host)
  | .isCallAllowed target, host => (host.isCallAllowed target, host)
  | .markCreatedThisTx addr, host =>
    ((), { host with createdThisTx := insert addr host.createdThisTx })
  | .selfdestruct contract beneficiary, host => ((), host.selfdestruct contract beneficiary)
  | .emitLog addr topics data, host =>
    ((), { host with state := ZvmStateAccess.emitLog host.state (logOf addr topics data) })

def handle (q : Request) (host : ProductionZvmHost S) :
    q.call.Reply × ProductionZvmHost S := answer q.call host

end ProductionZvmHost

end ZbxChain

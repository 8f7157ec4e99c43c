import ZbxChain.Execution.StateView
import ZbxChain.Staking.TxHandler
import ZbxChain.Zvm.Interpreter
import ZbxChain.Types.Signing

/-!
# Block execution

`BlockExecutor` of `zbx-execution/src/executor.rs`: `execute_tx` and `execute_staking_tx` in the
steps that the source numbers, and the loop over a block's transactions. The EVM, which runs on a
host of its own and cannot touch the view, the precompiles and the decoding of staking calls are
parameters (`Engines`).
-/

namespace ZbxChain

open ZvmStateAccess

inductive ExecutionError
  | invalidNonce (expected got : UInt64)
  | insufficientBalance (balance cost : Nat)
  | intrinsicGasTooLow (required provided : Nat)
  | state (message : String)
  | validation (message : String)
  deriving DecidableEq

def ExecutionError.display : ExecutionError → String
  | .invalidNonce expected got =>
    "invalid nonce: expected " ++ toString expected ++ ", got " ++ toString got
  | .insufficientBalance balance cost =>
    "insufficient balance: have " ++ toString balance ++ " wei, need " ++ toString cost ++ " wei"
  | .intrinsicGasTooLow required provided =>
    "intrinsic gas too low: required " ++ toString required ++ ", provided " ++ toString provided
  | .state message => "state error: " ++ message
  | .validation message => "block validation failed: " ++ message

abbrev ExecResult := Except (Fault ExecutionError)

/-! ## Engines -/

inductive ExitStatus
  | succeeded
  | reverted
  | failed
  deriving DecidableEq

structure EvmContext where
  caller : Address
  callee : Address
  value : U256
  calldata : Bytes
  gasLimit : Nat
  isStatic : Bool
  blockNumber : UInt64
  timestamp : UInt64
  coinbase : Address
  baseFee : UInt64
  chainId : UInt64

structure EvmLog where
  address : Address
  topics : List H256
  data : Bytes

structure Engines where
  /-- The precompiles of the ZVM. -/
  zvm : Zvm.Precompiles
  /-- The precompiles of the EVM: gas used, `none` for a failure. -/
  evmPrecompile : Address → Bytes → Nat → Option Nat
  /-- A run of the EVM on a fresh `MockHost`: status, gas used and logs. -/
  evm : EvmContext → Bytes → ExitStatus × Nat × List EvmLog
  bls : Bls
  decodeStakingCall : Bytes → Except StakingError StakingTx

/-- Engines that do nothing: no precompile answers, the EVM stops at once and no staking
call decodes. -/
def Engines.idle : Engines where
  zvm := Zvm.noPrecompiles
  evmPrecompile _ _ _ := none
  evm _ _ := (.succeeded, 0, [])
  bls := ⟨fun _ => none, fun _ => none, fun _ _ _ => false⟩
  decodeStakingCall _ := .error (.badPayload "rlp")

structure TxResult where
  gasUsed : Nat
  effectivePrice : Nat
  success : Bool
  logs : List Log
  contractAddress : Option Address

/-! ## Steps 1 and 2: checks and the debit -/

/-- What the sender pays in advance. The sum wraps as a `u128`. -/
def upfrontCost (tx : Transaction) : Nat := (tx.maxCost + tx.valueU128) % 2 ^ 128

variable (E : Engines) (tx : SignedTransaction) (header : BlockHeader) (target : CallTarget)

def preflight (view : StateView) : ExecResult StateView :=
  let sender := view.getAccount tx.sender
  let balance := sender.balanceU128
  let totalCost := satAddU128 tx.tx.maxCost tx.tx.valueU128
  if tx.tx.nonce ≠ sender.nonce then .error (.err (.invalidNonce sender.nonce tx.tx.nonce))
  else if balance < totalCost then .error (.err (.insufficientBalance balance totalCost))
  else if tx.tx.gasLimit.toNat < tx.tx.intrinsicGas then
    .error (.err (.intrinsicGasTooLow tx.tx.intrinsicGas tx.tx.gasLimit.toNat))
  else
    match (sender.setBalanceU128 (balance - upfrontCost tx.tx)).incrementNonce with
    | none => .error (.err (.state "arithmetic overflow"))
    | some sender => .ok (view.setAccount tx.sender sender)

/-! ## Step 3: the target -/

structure CallTarget where
  contractAddress : Option Address
  codeToRun : Bytes
  callee : Address
  isPureValueTransfer : Bool
  calleeVm : VmKind

def createTxAddress (sender : Address) (nonce : UInt64) : Address :=
  (keccak256 (sender.toBytes ++ beBytes 8 nonce.toNat)).setWidth 160

/-- A leading `0x5A` selects the ZVM and is not part of the code. -/
def deployVm : Bytes → VmKind × Bytes
  | 0x5A :: code => (.zvm, code)
  | code => (.evm, code)

def deployCode (view : StateView) (addr : Address) (vm : VmKind) (code : Bytes) : StateView :=
  if code = [] then view
  else
    let codeHash := keccak256 code
    let view := view.seedCode codeHash code
    let acct := { view.getAccount addr with codeHash := codeHash }
    view.setAccount addr (if vm = .zvm then { acct with vm := .zvm } else acct)

def resolveTarget (view : StateView) : CallTarget × StateView :=
  match tx.tx.dest with
  | none =>
    let addr := createTxAddress tx.sender tx.tx.nonce
    let (vm, code) := deployVm tx.tx.data
    (⟨some addr, code, addr, false, vm⟩, deployCode view addr vm code)
  | some dest =>
    let acct := view.getAccount dest
    if acct.isContract then (⟨none, view.getCode dest, dest, false, acct.vm⟩, view)
    else (⟨none, [], dest, true, .evm⟩, view)

/-! ## Step 4: the run -/

structure Outcome where
  status : ExitStatus
  gasUsed : Nat
  logs : List Log

def forwardedGas (tx : Transaction) : Nat := tx.gasLimit.toNat - tx.intrinsicGas

def callInput (tx : Transaction) : Bytes := if tx.dest.isSome then tx.data else []

def isEvmPrecompile (addr : Address) : Bool := 1 ≤ addr.toNat && addr.toNat ≤ 0x0f

def runPrecompile (callee : Address) : Outcome :=
  match E.evmPrecompile callee tx.tx.data (forwardedGas tx.tx) with
  | some used => ⟨.succeeded, used, []⟩
  | none => ⟨.failed, forwardedGas tx.tx, []⟩

def zvmContext : Zvm.ZvmContext where
  bytecode := target.codeToRun
  calldata := callInput tx.tx
  caller := tx.sender
  contract := target.callee
  value := tx.tx.valueU128
  gasLimit := forwardedGas tx.tx
  blockNumber := header.number.toNat
  blockTimestamp := header.timestamp.toNat
  baseFee := header.baseFeePerGas.toNat
  blobBaseFee := 1
  chainId := tx.tx.chainId.toNat
  isStatic := false
  aaSender := none
  origin := tx.sender

/-- The host of a transaction. A contract that the transaction itself creates counts as
created. -/
def txHost (view : StateView) : ProductionZvmHost StateView :=
  let host := ProductionZvmHost.new view (.fromHeader header)
  match target.contractAddress with
  | some addr => { host with createdThisTx := insert addr host.createdThisTx }
  | none => host

def drainDestructs (created : Finset Address) (pending : List (Address × Address))
    (view : StateView) : StateView :=
  pending.foldl (fun view d => if d.1 ∈ created then view.selfdestruct d.1 else view) view

def exitStatus : Zvm.ExecutionStatus → ExitStatus
  | .success => .succeeded
  | .revert => .reverted
  | .outOfGas | .invalidOpcode _ | .stackOverflow | .zvmError _ => .failed

/-- The logs after the first `n` leave the view. -/
def drainLogs (n : Nat) (view : StateView) : List Log × StateView :=
  (view.diffs.logs.drop n, { view with diffs := { view.diffs with logs := view.diffs.logs.take n } })

def runZvm (view : StateView) : ExecResult (Outcome × StateView) :=
  match Interaction.run ProductionZvmHost.handle
      (Zvm.interpret E.zvm (zvmContext tx header target)) (txHost header target view) with
  | (none, _) => .error .panic
  | (some result, host) =>
    let view' := if result.status = .success then
        drainDestructs host.createdThisTx host.pendingDestructs host.state
      else host.state
    let (logs, view') := drainLogs view.diffs.logs.length view'
    .ok (⟨exitStatus result.status, result.gasUsed, logs⟩, view')

def evmContext : EvmContext where
  caller := tx.sender
  callee := target.callee
  value := tx.tx.value
  calldata := callInput tx.tx
  gasLimit := forwardedGas tx.tx
  isStatic := false
  blockNumber := header.number
  timestamp := header.timestamp
  coinbase := header.coinbase
  baseFee := header.baseFeePerGas
  chainId := tx.tx.chainId

def runEvm : Outcome :=
  let (status, used, logs) := E.evm (evmContext tx header target) target.codeToRun
  ⟨status, used, logs.map fun l => ⟨l.address, l.topics, l.data, header.number, 0, 0, 0⟩⟩

def runTarget (view : StateView) : ExecResult (Outcome × StateView) :=
  if tx.tx.dest.isSome ∧ isEvmPrecompile target.callee then
    .ok (runPrecompile E tx target.callee, view)
  else if target.isPureValueTransfer ∨ target.codeToRun = [] then
    .ok (⟨.succeeded, 0, []⟩, view)
  else if target.calleeVm = .zvm then runZvm E tx header target view
  else .ok (runEvm E tx header target, view)

/-! ## Steps 5 and 6: the settlement -/

def gasCharged (tx : Transaction) (used : Nat) : Nat :=
  min (Zvm.satU64 (tx.intrinsicGas + used)) tx.gasLimit.toNat

def refundGas (gasUsed price : Nat) (view : StateView) : StateView :=
  credit view tx.sender (tx.tx.maxCost - gasUsed * price)

def finalizeCreate (addr : Address) (vm : VmKind) (value : Nat) (view : StateView) : StateView :=
  if view.isDeleted addr then view
  else
    let acct := view.getAccount addr
    let acct := if 0 < value then acct.setBalanceU128 (satAddU128 acct.balanceU128 value) else acct
    view.setAccount addr (if vm = .zvm then { acct with vm := .zvm } else acct)

def settleValue (success : Bool) (view : StateView) : StateView :=
  if success then
    match tx.tx.dest, target.contractAddress with
    | some dest, _ => credit view dest tx.tx.valueU128
    | none, some addr => finalizeCreate addr target.calleeVm tx.tx.valueU128 view
    | none, none => view
  else credit view tx.sender tx.tx.valueU128

def executeTx (view : StateView) : ExecResult (TxResult × StateView) := do
  let debited ← preflight tx view
  let (target, resolved) := resolveTarget tx debited
  let (outcome, ran) ← runTarget E tx header target resolved
  let price := tx.effectiveGasPrice header.baseFeePerGas.toNat
  let gasUsed := gasCharged tx.tx outcome.gasUsed
  let success := outcome.status = .succeeded
  let settled := settleValue tx target success (refundGas tx gasUsed price ran)
  return (⟨gasUsed, price, success, outcome.logs, target.contractAddress⟩, settled)

/-! ## Staking transactions -/

instance : BalanceAccess StateView where
  getBalance := balanceOf
  setBalance := setBalance

/-- Steps 3: the call, with the gas it costs; `none` when it fails. There is no slashing
pipeline, so an appeal always fails. -/
def runStakingCall (db : ZbxDb)
    (s : StakingState StateView) : Option Nat × StakingState StateView :=
  match E.decodeStakingCall tx.tx.data with
  | .error _ => (none, s)
  | .ok (.fileAppeal _) => (none, s)
  | .ok call =>
    match dispatchStakingTx E.bls call tx.sender tx.tx.valueU128 header.number db s with
    | .ok gas s' => (some gas, s')
    | .error _ s' => (none, s')

def settleStakingValue (success : Bool) (view : StateView) : StateView :=
  if success then
    if 0 < tx.tx.valueU128 then credit view stakingPrecompileAddr tx.tx.valueU128 else view
  else credit view tx.sender tx.tx.valueU128

def executeStakingTx (db : ZbxDb) (vs : ValidatorSet) (delta : StakingDelta) (view : StateView) :
    ExecResult (TxResult × StakingState StateView) := do
  let debited ← preflight tx view
  let (dispatched, s) := runStakingCall E tx header db ⟨vs, delta, debited⟩
  let price := tx.effectiveGasPrice header.baseFeePerGas.toNat
  let gasUsed := gasCharged tx.tx (dispatched.getD 0)
  let success := dispatched.isSome
  let settled := settleStakingValue tx success (refundGas tx gasUsed price s.balances)
  return (⟨gasUsed, price, success, [], none⟩, { s with balances := settled })

/-! ## Blocks -/

structure TransactionReceipt where
  success : Bool
  cumulativeGasUsed : Nat
  logs : List Log
  transactionHash : H256
  transactionIndex : Nat
  blockNumber : UInt64
  sender : Address
  dest : Option Address
  contractAddress : Option Address
  gasUsed : Nat
  effectiveGasPrice : Nat

/-- What the loop over the transactions carries. Without a validator set staking calls are
ordinary transactions. -/
structure BlockState where
  view : StateView
  vs : Option ValidatorSet
  delta : StakingDelta
  cumulativeGas : Nat
  receipts : List TransactionReceipt

def BlockState.start (view : StateView) (vs : Option ValidatorSet) : BlockState :=
  ⟨view, vs, .new, 0, []⟩

def routeTx (db : ZbxDb) (st : BlockState) : ExecResult (TxResult × BlockState) :=
  match isStakingDestination tx.tx.dest, st.vs with
  | true, some vs => do
    let (result, s) ← executeStakingTx E tx header db vs st.delta st.view
    return (result, { st with view := s.balances, vs := some s.vs, delta := s.delta })
  | _, _ => do
    let (result, view) ← executeTx E tx header st.view
    return (result, { st with view := view })

def validatorFee (result : TxResult) : Nat :=
  (result.effectivePrice - header.baseFeePerGas.toNat) * result.gasUsed

def receiptOf (tx : SignedTransaction) (idx cumulativeGas : Nat)
    (result : TxResult) : TransactionReceipt where
  success := result.success
  cumulativeGasUsed := cumulativeGas
  logs := result.logs
  transactionHash := tx.hash
  transactionIndex := idx
  blockNumber := header.number
  sender := tx.sender
  dest := tx.tx.dest
  contractAddress := result.contractAddress
  gasUsed := result.gasUsed
  effectiveGasPrice := result.effectivePrice

def executeOne (db : ZbxDb) (st : BlockState) (tx : SignedTransaction) : ExecResult BlockState := do
  let (result, st) ← routeTx E tx header db st
  let cumulativeGas := (st.cumulativeGas + result.gasUsed) % 2 ^ 64
  return { st with
    view := credit st.view header.coinbase (validatorFee header result)
    cumulativeGas := cumulativeGas
    receipts := st.receipts ++ [receiptOf header tx st.receipts.length cumulativeGas result] }

def executeTxs (E : Engines) (header : BlockHeader) (db : ZbxDb) :
    BlockState → List SignedTransaction → ExecResult BlockState
  | st, [] => return st
  | st, tx :: rest => do
    let st ← executeOne E header db st tx
    executeTxs E header db st rest

def payReward (view : StateView) : StateView :=
  let reward := blockRewardAt header.number.toNat
  if 0 < reward then credit view header.coinbase reward else view

def executeBody (block : Block) (db : ZbxDb) (vs : Option ValidatorSet)
    (view : StateView) : ExecResult BlockState :=
  if blockGasLimit < block.header.gasLimit.toNat then
    .error (.err (.validation ("gas_limit " ++ toString block.header.gasLimit ++
      " > protocol max " ++ toString blockGasLimit)))
  else do
    let st ← executeTxs E block.header db (.start view vs) block.transactions
    return { st with view := payReward block.header st.view }

structure ExecutionResult where
  receipts : List TransactionReceipt
  stateDiff : StateDiff
  gasUsed : Nat
  newStateRoot : H256
  stakingDelta : StakingDelta
  vs : Option ValidatorSet

/-- `execute_with_db` and `execute_with_staking`. -/
def executeBlock {DB : Type} [TrieDB DB] (E : Engines) (block : Block) (db : ZbxDb)
    (vs : Option ValidatorSet) (trieDb : DB) (view : StateView) : ExecResult ExecutionResult := do
  let st ← executeBody E block db vs view
  match st.view.stateRootWithDb trieDb with
  | .ok root => return ⟨st.receipts, st.view.diffs, st.cumulativeGas, root, st.delta, st.vs⟩
  | .error (.err e) => throw (.err (.state ("trie state_root: " ++ e.display)))
  | .error .panic => throw .panic

end ZbxChain

/-!
## The commitments of a block

What the executor puts into the header besides the state root and the gas
(`zbx-execution/src/bloom.rs`): the Bloom filter of the logs, the binary Merkle root of the
receipts (`zbx-crypto/src/merkle.rs`) and the root of the trie of transactions
(`zbx-crypto/src/mpt.rs`).
-/

namespace ZbxChain

open RlpStream Nibbles

/-! ## Bloom filters -/

/-- The bit of the pair of bytes at an even offset, as a position from the low end of the
filter. -/
def bloomBit (hash : Bytes) (offset : Nat) : Nat :=
  ((hash.getD offset 0).toNat * 256 + (hash.getD (offset + 1) 0).toNat) % 2048

/-- The source's byte array is the big-endian form of the bit vector, so that the bit `b` of
the array is the bit `b` of the vector. -/
def bloomAdd (bloom : BitVec 2048) (item : Bytes) : BitVec 2048 :=
  let hash := (keccak256 item).toBytes
  [0, 2, 4].foldl (fun bloom offset => bloom ||| BitVec.twoPow 2048 (bloomBit hash offset)) bloom

def addLog (bloom : BitVec 2048) (log : Log) : BitVec 2048 :=
  log.topics.foldl (fun bloom topic => bloomAdd bloom topic.toBytes)
    (bloomAdd bloom log.address.toBytes)

def computeReceiptBloom (logs : List Log) : BitVec 2048 := logs.foldl addLog 0

def aggregateBlockBloom (receipts : List TransactionReceipt) : BitVec 2048 :=
  receipts.foldl (fun bloom r => bloom ||| computeReceiptBloom r.logs) 0

/-! ## Receipts -/

def logBytes (log : Log) : Bytes :=
  log.address.toBytes ++ beBytes 8 log.topics.length ++ log.topics.flatMap H256.toBytes ++
    beBytes 8 log.data.length ++ log.data

def receiptBytes (r : TransactionReceipt) : Bytes :=
  (if r.success then [1] else [0]) ++ beBytes 8 r.cumulativeGasUsed ++
    beBytes 256 (computeReceiptBloom r.logs).toNat ++ beBytes 8 r.logs.length ++
    r.logs.flatMap logBytes

def computeReceiptHash (r : TransactionReceipt) : H256 := keccak256 (receiptBytes r)

def combineHashes (left right : H256) : H256 := keccak256 (0x01 :: (left.toBytes ++ right.toBytes))

/-- The layer above; the last of an odd number is combined with itself. -/
def nextLayer : List H256 → List H256
  | a :: b :: rest => combineHashes a b :: nextLayer rest
  | [a] => [combineHashes a a]
  | [] => []

/-- A layer is at most half as long as one of two or more below it, so that the number of
leaves is enough fuel. -/
def merkleRoot : Nat → List H256 → H256
  | _, [] => 0
  | _, [root] => root
  | 0, _ => 0
  | fuel + 1, layer => merkleRoot fuel (nextLayer layer)

def computeReceiptsRoot (receipts : List TransactionReceipt) : H256 :=
  merkleRoot receipts.length (receipts.map computeReceiptHash)

/-! ## The trie of transactions -/

namespace TxTrie

/-! `mpt.rs` has helpers of its own, which compute what those of `zbx-trie` do. -/

abbrev commonLen (a b : Nibbles) : Nat := commonPrefixLen a b

abbrev toNibbles (data : Bytes) : Nibbles := fromBytes data

def beMinimal (n : Nat) : Bytes := if n = 0 then [0] else minimalBytes n

abbrev rlpBytes (data : Bytes) : Bytes := stringItem data

abbrev rlpList (items : List Bytes) : Bytes := listItem items.flatten

abbrev hpEncode (path : Nibbles) (isLeaf : Bool) : Bytes := rlpBytes (encodeCompact path isLeaf)

def rlpUint64 (n : Nat) : Bytes := if n = 0 then [0x80] else rlpBytes (beMinimal n)

theorem rlpUint64_eq (n : Nat) : rlpUint64 n = stringItem (minimalBytes n) := by
  unfold rlpUint64 beMinimal
  split
  · rename_i h
    subst h
    rfl
  · rfl

inductive Node
  | empty
  | leaf (path : Nibbles) (value : Bytes)
  | extension (path : Nibbles) (child : Node)
  | branch (children : Nibble → Node) (value : Option Bytes)

def noChildren : Nibble → Node := fun _ => .empty

/-- A branch with one more entry below it: a leaf, or its own value when the path ends. -/
def hang (children : Nibble → Node) (own : Option Bytes) (path : Nibbles) (value : Bytes) :
    (Nibble → Node) × Option Bytes :=
  match path with
  | [] => (children, some value)
  | i :: rest => (Function.update children i (.leaf rest value), own)

def wrapWithExtension (path : Nibbles) (inner : Node) : Node :=
  if path = [] then inner else .extension path inner

def insert (value : Bytes) : Node → Nibbles → Node
  | .empty, path => .leaf path value
  | .leaf path' value', path =>
    let cl := commonLen path path'
    if cl = path'.length ∧ cl = path.length then .leaf path' value
    else
      let (children, own) := hang noChildren none (path'.drop cl) value'
      let (children, own) := hang children own (path.drop cl) value
      wrapWithExtension (path'.take cl) (.branch children own)
  | .extension path' child, path =>
    let cl := commonLen path path'
    match path'.drop cl with
    | [] => .extension path' (insert value child (path.drop cl))
    | i :: rest =>
      let (children, own) := hang (Function.update noChildren i (wrapWithExtension rest child)) none
        (path.drop cl) value
      wrapWithExtension (path'.take cl) (.branch children own)
  | .branch children own, path =>
    match path with
    | [] => .branch children (some value)
    | i :: rest => .branch (Function.update children i (insert value (children i) rest)) own

def embed (rlp : Bytes) : Bytes :=
  if rlp.length < 32 then rlp else rlpBytes (keccak256 rlp).toBytes

def nodeRlp : Node → Bytes
  | .empty => [0x80]
  | .leaf path value =>
    rlpList [hpEncode path true, rlpBytes value]
  | .extension path child =>
    rlpList [hpEncode path false, embed (nodeRlp child)]
  | .branch children value =>
    rlpList ((List.finRange 16).map (fun i => embed (nodeRlp (children i))) ++
      [(value.map rlpBytes).getD [0x80]])

def indexKey (i : Nat) : Nibbles :=
  toNibbles (rlpUint64 i)

def insertAt (root : Node) (entry : H256 × Nat) : Node :=
  insert (rlpBytes entry.1.toBytes) root (indexKey entry.2)

def root (hashes : List H256) : H256 :=
  keccak256 (nodeRlp (hashes.zipIdx.foldl insertAt .empty))

example : root [] = 0x56e81f171bcc55a6ff8345e692c0f86e5b48e01b996cadc001622fb5e363b421 := by
  decide +kernel

end TxTrie

def computeTxRoot (txs : List WireTransaction) : H256 :=
  TxTrie.root (txs.map fun t => t.tx.signingHash)

end ZbxChain

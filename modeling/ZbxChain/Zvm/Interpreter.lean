import ZbxChain.Crypto.Keccak
import ZbxChain.Zvm.Machine
import ZbxChain.Zvm.Word

/-!
# The ZVM interpreter

`ZvmInterpreter` of `zbx-zvm/src/interpreter.rs`. `dispatch` runs one instruction, `runLoop` the
loop of a frame. The sub-frame of a call or a creation is run by the loop itself; `doCall` and
`doCreate` take it as a parameter and are split where it starts, into what comes before
(`prepareCall`, `prepareCreate`) and after (`finishCall`, `finishCreate`).
-/

namespace ZbxChain.Zvm

open FrameM

/-- The precompiled contracts: output and gas used, `none` for a failure. The three that
read the chain state get a reader. -/
structure Precompiles where
  callPrecompile : Address → Bytes → Nat → Option (Bytes × Nat)
  payidResolveWith : Bytes → Nat → PayIdLookup → Option (Bytes × Nat)
  priceOracleWith : Bytes → Nat → (Address → H256 → H256) → Option (Bytes × Nat)
  zusdVaultWith : Bytes → Nat → (Address → H256 → H256) → Nat → Option (Bytes × Nat)

def noPrecompiles : Precompiles where
  callPrecompile _ _ _ := none
  payidResolveWith _ _ _ := none
  priceOracleWith _ _ _ := none
  zusdVaultWith _ _ _ _ := none

def callDepthLimit : Nat := 1024

/-- One flag for each byte of the code: is it a `JUMPDEST` outside of the operand of a
`PUSH`? `skip` counts the operand bytes that follow. -/
def buildJumpdestBitmap (skip : Nat) : Bytes → List Bool
  | [] => []
  | op :: rest =>
    match skip with
    | skip + 1 => false :: buildJumpdestBitmap skip rest
    | 0 =>
      if op = 0x5b then true :: buildJumpdestBitmap 0 rest
      else if 0x60 ≤ op ∧ op ≤ 0x7f then false :: buildJumpdestBitmap (op.toNat - 0x5f) rest
      else false :: buildJumpdestBitmap 0 rest

def Env.new (ctx : ZvmContext) (depth : Nat) : Env :=
  ⟨ctx, depth, buildJumpdestBitmap 0 ctx.bytecode⟩

def Frame.new (gas : Nat) (addresses : List Address) (slots : List (Address × H256)) : Frame where
  stack := []
  memory := []
  pc := 0
  gas := gas
  logs := []
  zvmLogs := []
  returnData := []
  logIndex := 0
  accessedAddresses := addresses
  accessedSlots := slots

def finish (env : Env) (f : Frame) (status : ExecutionStatus) : ZvmResult where
  status := status
  returnData := f.returnData
  gasRemaining := f.gas
  gasUsed := env.ctx.gasLimit - f.gas
  logs := f.logs
  zvmLogs := f.zvmLogs

abbrev FrameRun := Env → Frame → HostM (Halt × Frame)

variable (P : Precompiles) (run : FrameRun)

/-- Run a sub-frame; the result and the frame it ended in. -/
def runSub (subEnv : Env) (subFrame : Frame) : FrameM (ZvmResult × Frame) :=
  fun _ f => do
    match ← run subEnv subFrame with
    | (.stop status, f') => return .ok (finish subEnv f' status, f') f
    | (.error e, f') => return .ok (finish subEnv f' (.zvmError e.display), f') f
    | (.panic, _) => return .error .panic f
    | (.outOfFuel, _) => return .error .outOfFuel f

def clearReturnData : FrameM Unit := modify fun f => { f with returnData := [] }

def setReturnData (data : Bytes) : FrameM Unit := modify fun f => { f with returnData := data }

def absorb (result : ZvmResult) (sub : Frame) : FrameM Unit :=
  modify fun f => { f with
    accessedAddresses := sub.accessedAddresses ∪ f.accessedAddresses
    accessedSlots := sub.accessedSlots ∪ f.accessedSlots
    gas := satU64 (f.gas + result.gasRemaining) }

/-! ## Precompiles -/

/-- The addresses `0x01` to `0x0f`. -/
def isPrecompile (addr : Address) : Bool := 1 ≤ addr.toNat && addr.toNat ≤ 0x0f

def settlePrecompile (retOff retLen : Nat) : Option (Bytes × Nat) → FrameM Unit
  | some (output, gasUsed) => do
    modify fun f => { f with gas := f.gas - gasUsed }
    storeBytes retOff (output.take retLen)
    setReturnData output
    pushNat 1
  | none => do
    clearReturnData
    pushNat 0

def doPrecompileCall (target : Address) (calldata : Bytes)
    (gasReq retOff retLen : Nat) : FrameM Unit := do
  let avail := min gasReq (← get).gas
  if target.toNat = 0x0a then
    let lookup ← Host.payIdLookup
    settlePrecompile retOff retLen (P.payidResolveWith calldata avail lookup)
  else if target.toNat = 0x0c then
    let reader ← Host.storageReader
    settlePrecompile retOff retLen (P.priceOracleWith calldata avail reader)
  else if target.toNat = 0x0f then
    let reader ← Host.storageReader
    let timestamp := (← env).ctx.blockTimestamp
    settlePrecompile retOff retLen (P.zusdVaultWith calldata avail reader timestamp)
  else settlePrecompile retOff retLen (P.callPrecompile target calldata avail)

/-! ## The `CALL` family -/

inductive ZvmCallKind
  | call
  | callCode
  | delegateCall
  | staticCall
  deriving DecidableEq, Repr

structure CallPlan where
  env : Env
  frame : Frame
  retOff : Nat
  retLen : Nat

def callContext (ctx : ZvmContext) (kind : ZvmCallKind) (target : Address) (code calldata : Bytes)
    (value forwarded : Nat) : ZvmContext :=
  { ctx with
    bytecode := code
    calldata := calldata
    caller := if kind = .delegateCall then ctx.caller else ctx.contract
    contract := if kind = .delegateCall then ctx.contract else target
    value := if kind = .delegateCall then ctx.value else value
    gasLimit := forwarded
    isStatic := ctx.isStatic || kind = .staticCall
    aaSender := none }

def refuseCall : FrameM (Option CallPlan) := do
  clearReturnData
  pushNat 0
  return none

variable (kind : ZvmCallKind)

def planCall (target : Address) (code calldata : Bytes)
    (value gasReq retOff retLen : Nat) : FrameM (Option CallPlan) := do
  let env ← env
  let f ← get
  let forwarded := min gasReq (f.gas / 64 * 63)
  modify fun f => { f with gas := f.gas - forwarded }
  let ctx := callContext env.ctx kind target code calldata value forwarded
  return some ⟨Env.new ctx (env.depth + 1),
    Frame.new forwarded f.accessedAddresses f.accessedSlots, retOff, retLen⟩

/-- Only `CALL` and `CALLCODE` have a value operand. -/
def popValue : ZvmCallKind → FrameM Nat
  | .call | .callCode => popU128
  | .delegateCall | .staticCall => return 0

def checkStaticValue (value : Nat) : FrameM Unit := do
  let env ← env
  if (kind = .call ∨ kind = .callCode) ∧ env.ctx.isStatic ∧ 0 < value then
    fail .staticStateChange

/-- The value moves before the sub-frame starts, and only for `CALL`. -/
def sendValue (target : Address) (value : Nat) : FrameM Bool := do
  let env ← env
  if kind = .call ∧ 0 < value then
    if (← Host.balance env.ctx.contract) < value then return false
    else
      Host.transfer env.ctx.contract target value
      return true
  else return true

def prepareCall : FrameM (Option CallPlan) := do
  let gasReq ← popU64
  let target ← popAddress
  let value ← popValue kind
  checkStaticValue kind value
  let argsOff ← popU64
  let argsLen ← popU64
  let retOff ← popU64
  let retLen ← popU64
  accessAddress target
  chargeWindow argsOff argsLen
  chargeWindow retOff retLen
  if callDepthLimit ≤ (← env).depth then refuseCall
  else
    let calldata ← readSlice argsOff argsLen
    if isPrecompile target then
      doPrecompileCall P target calldata gasReq retOff retLen
      return none
    else if (← Host.isCallAllowed target) = false then refuseCall
    else
      let code ← Host.code target
      if (← sendValue kind target value) = false then refuseCall
      else planCall kind target code calldata value gasReq retOff retLen

/-- Settle a finished sub-frame; the parent's stack gets 1 only for a success. -/
def finishCall (plan : CallPlan) (result : ZvmResult) (sub : Frame) : FrameM Unit := do
  absorb result sub
  setReturnData result.returnData
  storeBytes plan.retOff (result.returnData.take plan.retLen)
  pushBool (result.status = .success)

def doCall : FrameM Unit := do
  match ← prepareCall P kind with
  | none => return ()
  | some plan =>
    let (result, sub) ← runSub run plan.env plan.frame
    finishCall plan result sub

/-! ## The `CREATE` family -/

def requireNotStatic : FrameM Unit := do
  if (← env).ctx.isStatic then fail .staticStateChange

def maxInitcodeSize : Nat := 2 * 24576

def maxCodeSize : Nat := 24576

/-- `keccak256(rlp([creator, nonce]))[12..]`. -/
def createAddress (creator : Address) (nonce : Nat) : Address :=
  let compact := trimZeros (beBytes 8 nonce)
  let creatorRlp := UInt8.ofNat (0x80 + 20) :: creator.toBytes
  let nonceRlp := match nonce, compact with
    | 0, _ => [0x80]
    | _, [b] => if b < 0x80 then [b] else [0x81, b]
    | _, _ => UInt8.ofNat (0x80 + compact.length) :: compact
  let payload := creatorRlp ++ nonceRlp
  (keccak256 (UInt8.ofNat (0xc0 + payload.length) :: payload)).setWidth 160

/-- `keccak256(0xff ++ creator ++ salt ++ keccak256(initcode))[12..]`. -/
def create2Address (creator : Address) (salt : H256) (initcode : Bytes) : Address :=
  (keccak256 (0xff :: (creator.toBytes ++ salt.toBytes ++
    (keccak256 initcode).toBytes))).setWidth 160

structure CreatePlan where
  env : Env
  frame : Frame
  newAddr : Address

def createContext (ctx : ZvmContext) (newAddr : Address) (initcode : Bytes)
    (value forwarded : Nat) : ZvmContext :=
  { ctx with
    bytecode := initcode
    calldata := []
    caller := ctx.contract
    contract := newAddr
    value := value
    gasLimit := forwarded
    isStatic := false
    aaSender := none }

def refuseCreate : FrameM (Option CreatePlan) := do
  push 0
  return none

def planCreate (newAddr : Address) (initcode : Bytes) (value : Nat) :
    FrameM (Option CreatePlan) := do
  let env ← env
  let f ← get
  let forwarded := f.gas / 64 * 63
  modify fun f => { f with gas := f.gas - forwarded }
  return some ⟨Env.new (createContext env.ctx newAddr initcode value forwarded) (env.depth + 1),
    Frame.new forwarded f.accessedAddresses f.accessedSlots, newAddr⟩

def endow (creator newAddr : Address) (value : Nat) : FrameM Unit :=
  if 0 < value then Host.transfer creator newAddr value else return ()

def openAccount (creator newAddr : Address) (initcode : Bytes) (value : Nat) :
    FrameM (Option CreatePlan) := do
  endow creator newAddr value
  let _ ← Host.incNonce newAddr
  planCreate newAddr initcode value

/-- Derive the address of the new account; it must not be taken. -/
def claimAddress (creator : Address) (salt : Option H256) (initcode : Bytes) (value : Nat) :
    FrameM (Option CreatePlan) := do
  let creatorNonce ← Host.nonce creator
  let newAddr := match salt with
    | some s => create2Address creator s initcode
    | none => createAddress creator creatorNonce
  let _ ← Host.incNonce creator
  if (← Host.code newAddr) ≠ [] then refuseCreate
  else if 0 < (← Host.nonce newAddr) then refuseCreate
  else openAccount creator newAddr initcode value

/-- `CREATE2` has a salt operand. -/
def popSalt (withSalt : Bool) : FrameM (Option H256) :=
  if withSalt then return some (← pop) else return none

/-- The gas for the words of the initcode, twice for `CREATE2`, which hashes it. -/
def chargeInitcode (withSalt : Bool) (off len : Nat) : FrameM Unit := do
  chargeGas (satU64 (2 * wordCount len))
  chargeGas (if withSalt then keccak256DynamicGas len else 0)
  chargeWindow off len

def prepareCreate (withSalt : Bool) : FrameM (Option CreatePlan) := do
  requireNotStatic
  let value ← popU128
  let off ← popU64
  let len ← popU64
  let salt ← popSalt withSalt
  if maxInitcodeSize < len then
    clearReturnData
    refuseCreate
  else
    chargeInitcode withSalt off len
    let env ← env
    if callDepthLimit ≤ env.depth then
      clearReturnData
      refuseCreate
    else if (← Host.balance env.ctx.contract) < value then refuseCreate
    else
      let initcode ← readSlice off len
      claimAddress env.ctx.contract salt initcode value

def deploy (newAddr : Address) (deployed : Bytes) : FrameM Unit := do
  let depositCost := 200 * deployed.length
  if maxCodeSize < deployed.length then push 0
  else if deployed.head? = some 0xef then push 0
  else if (← get).gas < depositCost then push 0
  else
    modify fun f => { f with gas := f.gas - depositCost }
    Host.setCode newAddr deployed
    Host.markCreatedThisTx newAddr
    clearReturnData
    pushAddress newAddr

def finishCreate (plan : CreatePlan) (result : ZvmResult) (sub : Frame) : FrameM Unit := do
  absorb result sub
  if result.status = .success then deploy plan.newAddr result.returnData
  else
    setReturnData result.returnData
    push 0

def doCreate (withSalt : Bool) : FrameM Unit := do
  match ← prepareCreate withSalt with
  | none => return ()
  | some plan =>
    let (result, sub) ← runSub run plan.env plan.frame
    finishCreate plan result sub

/-! ## Instructions -/

inductive Flow
  | next
  | jumped

def andNext (x : FrameM Unit) : FrameM Flow := do
  x
  return .next

def unaryOp (g : H256 → H256) : FrameM Unit := do
  let a ← pop
  push (g a)

def binaryOp (g : H256 → H256 → H256) : FrameM Unit := do
  let a ← pop
  let b ← pop
  push (g a b)

def ternaryOp (g : H256 → H256 → H256 → H256) : FrameM Unit := do
  let a ← pop
  let b ← pop
  let c ← pop
  push (g a b c)

def compareOp (g : H256 → H256 → Bool) : FrameM Unit := do
  let a ← pop
  let b ← pop
  pushBool (g a b)

def exp : FrameM Unit := do
  let base ← pop
  let exponent ← pop
  chargeGas (expDynamicGas exponent.toBytes)
  push (wrappingPow base exponent)

def keccak : FrameM Unit := do
  let offset ← popU64
  let length ← popU64
  chargeGas (keccak256DynamicGas length)
  chargeWindow offset length
  push (keccak256 (← readSlice offset length))

def calldataload : FrameM Unit := do
  let offset ← pop
  let calldata := (← env).ctx.calldata
  if offset.toNat < calldata.length then
    let bytes := (calldata.drop offset.toNat).take 32
    push (H256.ofBytes (bytes ++ List.replicate (32 - bytes.length) 0))
  else push 0

/-- `CALLDATACOPY` and `CODECOPY`: bytes past the end of the source are zero. -/
def copyFrom (source : Bytes) : FrameM Unit := do
  let destOff ← popU64
  let srcOff ← popU64
  let len ← popU64
  chargeGas (copyDynamicGas len)
  chargeWindow destOff len
  writeSlice destOff (← paddedCopy source srcOff len)

def returndatacopy : FrameM Unit := do
  let destOff ← popU64
  let srcOff ← popU64
  let len ← popU64
  chargeGas (copyDynamicGas len)
  chargeWindow destOff len
  let data := (← get).returnData
  if data.length < satU64 (srcOff + len) then
    fail (.invalidInput "RETURNDATACOPY out of bounds")
  else writeSlice destOff ((data.drop srcOff).take len)

def mcopy : FrameM Unit := do
  let destOff ← popU64
  let srcOff ← popU64
  let len ← popU64
  chargeGas (copyDynamicGas len)
  chargeWindow (max destOff srcOff) len
  memoryCopy destOff srcOff len

def extcodecopy : FrameM Unit := do
  let addr ← popAddress
  let destOff ← popU64
  let codeOff ← popU64
  let len ← popU64
  accessAddress addr
  chargeGas (copyDynamicGas len)
  chargeWindow destOff len
  let code ← Host.code addr
  writeSlice destOff (← paddedCopy code codeOff len)

/-- `PUSH1` to `PUSH32`: `n` operand bytes. -/
def pushOperand (n : Nat) : FrameM Unit := do
  let code := (← env).ctx.bytecode
  let start := (← get).pc + 1
  if code.length < start + n then fail .unexpectedEnd
  else
    push (H256.ofBytes ((code.drop start).take n))
    modify fun f => { f with pc := f.pc + n }

def sload : FrameM Unit := do
  let key ← pop
  let contract := (← env).ctx.contract
  accessSlot (contract, key) (coldSloadCost - warmSloadCost)
  push (← Host.storageLoad contract key)

def sstore : FrameM Unit := do
  requireNotStatic
  let key ← pop
  let value ← pop
  let contract := (← env).ctx.contract
  accessSlot (contract, key) sstoreColdDelta
  Host.storageStore contract key value

def tload : FrameM Unit := do
  let key ← pop
  push (← Host.transientLoad (← env).ctx.contract key)

def tstore : FrameM Unit := do
  requireNotStatic
  let key ← pop
  let value ← pop
  Host.transientStore (← env).ctx.contract key value

def jumpTo (dest : Nat) : FrameM Flow := do
  let env ← env
  if env.jumpdests[dest]?.getD false then
    modify fun f => { f with pc := dest }
    return .jumped
  else fail (.invalidJump dest)

def jumpi : FrameM Flow := do
  let dest ← popU64
  let cond ← pop
  if cond = 0 then return .next else jumpTo dest

/-- `RETURN` and `REVERT`. -/
def returnWith (status : ExecutionStatus) : FrameM Unit := do
  let offset ← popU64
  let len ← popU64
  chargeWindow offset len
  setReturnData (← readSlice offset len)
  halt (.stop status)

def selfdestruct : FrameM Unit := do
  requireNotStatic
  let beneficiary ← popAddress
  Host.selfdestruct (← env).ctx.contract beneficiary
  halt (.stop .success)

def payid : FrameM Unit := do
  let ptr ← popU64
  let len ← popU64
  let payId ← readString ptr len
  pushAddress ((← Host.resolvePayId payId).getD 0)

def zbxburn : FrameM Unit := do
  requireNotStatic
  let amount ← popU128
  Host.burnZbx (← env).ctx.caller amount

def popTopics : Nat → FrameM (List H256)
  | 0 => return []
  | n + 1 => do
    let topic ← pop
    return topic :: (← popTopics n)

/-- `LOG0` to `LOG4`. -/
def emitLog (nTopics : Nat) : FrameM Unit := do
  requireNotStatic
  let offset ← popU64
  let length ← popU64
  chargeGas (logDynamicGas nTopics length)
  chargeWindow offset length
  let topics ← popTopics nTopics
  let data ← readSlice offset length
  let contract := (← env).ctx.contract
  modify fun f => { f with logs := f.logs ++ [⟨contract, topics, data⟩] }
  Host.emitLog contract topics data

def zvmlog : FrameM Unit := do
  let keyPtr ← popU64
  let keyLen ← popU64
  let valPtr ← popU64
  let valLen ← popU64
  let key ← readString keyPtr keyLen
  let value ← readString valPtr valLen
  Host.emitZvmLog key value
  let block := (← env).ctx.blockNumber
  modify fun f => { f with
    zvmLogs := f.zvmLogs ++ [⟨key, value, block, f.logIndex⟩]
    logIndex := f.logIndex + 1 }

def mload : FrameM Unit := do
  let offset ← popU64
  chargeWindow offset 32
  push (← load offset)

def mstore : FrameM Unit := do
  let offset ← popU64
  let word ← pop
  chargeWindow offset 32
  store offset word

def mstore8 : FrameM Unit := do
  let offset ← popU64
  let word ← pop
  chargeWindow offset 1
  store8 offset (UInt8.ofNat word.toNat)

/-- `BALANCE`, `EXTCODESIZE` and `EXTCODEHASH`: ask the host about an account. -/
def queryAccount (query : Address → FrameM H256) : FrameM Unit := do
  let addr ← popAddress
  accessAddress addr
  push (← query addr)

/-- The arms of `dispatch`. -/
def execute (op : Opcode) : FrameM Flow := do
  match op with
  | .STOP => halt (.stop .success)
  | .ADD => andNext (binaryOp (· + ·))
  | .MUL => andNext (binaryOp (· * ·))
  | .SUB => andNext (binaryOp (· - ·))
  | .DIV => andNext (binaryOp div)
  | .SDIV => andNext (binaryOp sdivU256)
  | .MOD => andNext (binaryOp mod)
  | .SMOD => andNext (binaryOp smodU256)
  | .ADDMOD => andNext (ternaryOp addmod)
  | .MULMOD => andNext (ternaryOp mulmod)
  | .EXP => andNext exp
  | .SIGNEXTEND => andNext (binaryOp signextend)
  | .LT => andNext (compareOp (· < ·))
  | .GT => andNext (compareOp (· > ·))
  | .SLT => andNext (compareOp signedLt)
  | .SGT => andNext (compareOp fun a b => signedLt b a)
  | .EQ => andNext (compareOp (· = ·))
  | .ISZERO => andNext (unaryOp fun a => if a = 0 then 1 else 0)
  | .AND => andNext (binaryOp (· &&& ·))
  | .OR => andNext (binaryOp (· ||| ·))
  | .XOR => andNext (binaryOp (· ^^^ ·))
  | .NOT => andNext (unaryOp (~~~·))
  | .BYTE => andNext (binaryOp byteAt)
  | .SHL => andNext (binaryOp fun shift value => shl value shift)
  | .SHR => andNext (binaryOp fun shift value => shr value shift)
  | .SAR => andNext (binaryOp fun shift value => sarU256 value shift)
  | .KECCAK256 => andNext keccak
  | .ADDRESS => andNext do pushAddress (← env).ctx.contract
  | .BALANCE => andNext (queryAccount fun addr => return BitVec.ofNat 256 (← Host.balance addr))
  | .ORIGIN => andNext do pushAddress (← env).ctx.origin
  | .CALLER => andNext do pushAddress (← env).ctx.caller
  | .CALLVALUE => andNext do pushNat (← env).ctx.value
  | .CALLDATALOAD => andNext calldataload
  | .CALLDATASIZE => andNext do pushNat (← env).ctx.calldata.length
  | .CALLDATACOPY => andNext do copyFrom (← env).ctx.calldata
  | .CODESIZE => andNext do pushNat (← env).ctx.bytecode.length
  | .CODECOPY => andNext do copyFrom (← env).ctx.bytecode
  | .GASPRICE => andNext do pushNat (← Host.gasPrice)
  | .EXTCODESIZE =>
    andNext (queryAccount fun addr => return BitVec.ofNat 256 (← Host.code addr).length)
  | .EXTCODECOPY => andNext extcodecopy
  | .RETURNDATASIZE => andNext do pushNat (← get).returnData.length
  | .RETURNDATACOPY => andNext returndatacopy
  | .EXTCODEHASH => andNext (queryAccount Host.codeHash)
  | .BLOCKHASH => andNext do push (← Host.blockHash (← popU64))
  | .COINBASE => andNext do pushAddress (← Host.coinbase)
  | .TIMESTAMP => andNext do pushNat (← env).ctx.blockTimestamp
  | .NUMBER => andNext do pushNat (← env).ctx.blockNumber
  | .PREVRANDAO => andNext do push (← Host.prevrandao)
  | .GASLIMIT => andNext do pushNat (← Host.blockGasLimit)
  | .CHAINID => andNext do pushNat (← env).ctx.chainId
  | .SELFBALANCE => andNext do pushNat (← Host.balance (← env).ctx.contract)
  | .BASEFEE => andNext do pushNat (← env).ctx.baseFee
  | .BLOBHASH => andNext do push (← Host.blobHash (← popU64))
  | .BLOBBASEFEE => andNext do pushNat (← env).ctx.blobBaseFee
  | .POP => andNext do let _ ← pop
  | .MLOAD => andNext mload
  | .MSTORE => andNext mstore
  | .MSTORE8 => andNext mstore8
  | .SLOAD => andNext sload
  | .SSTORE => andNext sstore
  | .JUMP => jumpTo (← popU64)
  | .JUMPI => jumpi
  | .PC => andNext do pushNat (← get).pc
  | .MSIZE => andNext do pushNat (memoryWords (← get) * 32)
  | .GAS => andNext do pushNat (← get).gas
  | .JUMPDEST => return .next
  | .TLOAD => andNext tload
  | .TSTORE => andNext tstore
  | .MCOPY => andNext mcopy
  | .PUSH0 => andNext (push 0)
  | .PUSH n => andNext (pushOperand (n + 1))
  | .DUP n => andNext (dup (n + 1))
  | .SWAP n => andNext (swap (n + 1))
  | .LOG n => andNext (emitLog n)
  | .CREATE => andNext (doCreate run false)
  | .CALL => andNext (doCall P run .call)
  | .CALLCODE => andNext (doCall P run .callCode)
  | .RETURN => andNext (returnWith .success)
  | .DELEGATECALL => andNext (doCall P run .delegateCall)
  | .CREATE2 => andNext (doCreate run true)
  | .STATICCALL => andNext (doCall P run .staticCall)
  | .REVERT => andNext (returnWith .revert)
  | .INVALID => halt (.stop (.invalidOpcode 0xfe))
  | .SELFDESTRUCT => andNext selfdestruct
  | .PAYID => andNext payid
  | .ZUSDBAL => andNext do pushNat (← Host.zusdBalance (← popAddress))
  | .ZBXPRICE => andNext do pushNat (← Host.zbxPriceUsd)
  | .ZBXTIME => andNext (pushNat 5000)
  | .AASENDER => andNext do
    let ctx := (← env).ctx
    pushAddress (ctx.aaSender.getD ctx.caller)
  | .CHAINVER => andNext (pushNat 1)
  | .BLOBFEE => andNext do pushNat (← Host.blobBaseFee)
  | .PAYIDSET => andNext do pushBool (← Host.hasPayId (← popAddress))
  | .ZBXBURN => andNext zbxburn
  | .ZVMLOG => andNext zvmlog

def dispatch (op : Opcode) : FrameM Unit := do
  match ← execute P run op with
  | .next => modify fun f => { f with pc := f.pc + 1 }
  | .jumped => return ()

/-! ## The loop -/

def runLoop (P : Precompiles) : Nat → FrameRun
  | 0, _, f => .ret (.outOfFuel, f)
  | fuel + 1, env, f =>
    match env.ctx.bytecode[f.pc]? with
    | none => .ret (.stop .success, f)
    | some byte =>
      match Opcode.fromU8 byte with
      | none => .ret (.stop (.invalidOpcode byte), f)
      | some op =>
        if f.gas < opcodeGas op then .ret (.stop .outOfGas, f)
        else do
          match ← dispatch P (runLoop P fuel) op env { f with gas := f.gas - opcodeGas op } with
          | .ok _ f' => runLoop P fuel env f'
          | .error h f' => return (h, f')

/-- Run a context from a fresh frame; `none` stands for a panic of the process. -/
def interpret (ctx : ZvmContext) : HostM (Option ZvmResult) := do
  let env := Env.new ctx 0
  match ← runLoop P (ctx.gasLimit + 1) env (Frame.new ctx.gasLimit [] []) with
  | (.stop status, f) => return some (finish env f status)
  | (.error e, f) => return some (finish env f (.zvmError e.display))
  | (.panic, _) => return none
  | (.outOfFuel, _) => return none

end ZbxChain.Zvm

import ZbxChain.Lib.Interaction
import ZbxChain.Types.Primitives

/-!
# ZVM opcodes and their gas

The instruction set of `zbx-zvm/src/opcodes.rs` and the prices of `gas.rs`. The families
`PUSH1`–`PUSH32`, `DUP1`–`DUP16`, `SWAP1`–`SWAP16` and `LOG0`–`LOG4` are one constructor
each; `PUSH n` stands for the instruction with `n + 1` operand bytes, likewise `DUP n`
and `SWAP n`, and `LOG n` has `n` topics.
-/

namespace ZbxChain.Zvm

inductive Opcode
  | STOP | ADD | MUL | SUB | DIV | SDIV | MOD | SMOD | ADDMOD | MULMOD | EXP | SIGNEXTEND
  | LT | GT | SLT | SGT | EQ | ISZERO | AND | OR | XOR | NOT | BYTE | SHL | SHR | SAR
  | KECCAK256
  | ADDRESS | BALANCE | ORIGIN | CALLER | CALLVALUE | CALLDATALOAD | CALLDATASIZE
  | CALLDATACOPY | CODESIZE | CODECOPY | GASPRICE | EXTCODESIZE | EXTCODECOPY | RETURNDATASIZE
  | RETURNDATACOPY | EXTCODEHASH
  | BLOCKHASH | COINBASE | TIMESTAMP | NUMBER | PREVRANDAO | GASLIMIT | CHAINID | SELFBALANCE
  | BASEFEE | BLOBHASH | BLOBBASEFEE
  | POP | MLOAD | MSTORE | MSTORE8 | SLOAD | SSTORE | JUMP | JUMPI | PC | MSIZE | GAS
  | JUMPDEST | TLOAD | TSTORE | MCOPY | PUSH0
  | PUSH (n : Fin 32) | DUP (n : Fin 16) | SWAP (n : Fin 16) | LOG (n : Fin 5)
  | CREATE | CALL | CALLCODE | RETURN | DELEGATECALL | CREATE2 | STATICCALL | REVERT | INVALID
  | SELFDESTRUCT
  | PAYID | ZUSDBAL | ZBXPRICE | ZBXTIME | AASENDER | CHAINVER | BLOBFEE | PAYIDSET | ZBXBURN
  | ZVMLOG
  deriving DecidableEq, Repr

namespace Opcode

/-- The byte as a member of a family of `k` opcodes that starts at `base`. -/
def family (byte : UInt8) (base k : Nat) : Option (Fin k) :=
  if h : byte.toNat - base < k then
    if base ≤ byte.toNat then some ⟨byte.toNat - base, h⟩ else none
  else none

def fromU8 (byte : UInt8) : Option Opcode :=
  match byte with
  | 0x00 => some .STOP
  | 0x01 => some .ADD
  | 0x02 => some .MUL
  | 0x03 => some .SUB
  | 0x04 => some .DIV
  | 0x05 => some .SDIV
  | 0x06 => some .MOD
  | 0x07 => some .SMOD
  | 0x08 => some .ADDMOD
  | 0x09 => some .MULMOD
  | 0x0a => some .EXP
  | 0x0b => some .SIGNEXTEND
  | 0x10 => some .LT
  | 0x11 => some .GT
  | 0x12 => some .SLT
  | 0x13 => some .SGT
  | 0x14 => some .EQ
  | 0x15 => some .ISZERO
  | 0x16 => some .AND
  | 0x17 => some .OR
  | 0x18 => some .XOR
  | 0x19 => some .NOT
  | 0x1a => some .BYTE
  | 0x1b => some .SHL
  | 0x1c => some .SHR
  | 0x1d => some .SAR
  | 0x20 => some .KECCAK256
  | 0x30 => some .ADDRESS
  | 0x31 => some .BALANCE
  | 0x32 => some .ORIGIN
  | 0x33 => some .CALLER
  | 0x34 => some .CALLVALUE
  | 0x35 => some .CALLDATALOAD
  | 0x36 => some .CALLDATASIZE
  | 0x37 => some .CALLDATACOPY
  | 0x38 => some .CODESIZE
  | 0x39 => some .CODECOPY
  | 0x3a => some .GASPRICE
  | 0x3b => some .EXTCODESIZE
  | 0x3c => some .EXTCODECOPY
  | 0x3d => some .RETURNDATASIZE
  | 0x3e => some .RETURNDATACOPY
  | 0x3f => some .EXTCODEHASH
  | 0x40 => some .BLOCKHASH
  | 0x41 => some .COINBASE
  | 0x42 => some .TIMESTAMP
  | 0x43 => some .NUMBER
  | 0x44 => some .PREVRANDAO
  | 0x45 => some .GASLIMIT
  | 0x46 => some .CHAINID
  | 0x47 => some .SELFBALANCE
  | 0x48 => some .BASEFEE
  | 0x49 => some .BLOBHASH
  | 0x4a => some .BLOBBASEFEE
  | 0x50 => some .POP
  | 0x51 => some .MLOAD
  | 0x52 => some .MSTORE
  | 0x53 => some .MSTORE8
  | 0x54 => some .SLOAD
  | 0x55 => some .SSTORE
  | 0x56 => some .JUMP
  | 0x57 => some .JUMPI
  | 0x58 => some .PC
  | 0x59 => some .MSIZE
  | 0x5a => some .GAS
  | 0x5b => some .JUMPDEST
  | 0x5c => some .TLOAD
  | 0x5d => some .TSTORE
  | 0x5e => some .MCOPY
  | 0x5f => some .PUSH0
  | 0xf0 => some .CREATE
  | 0xf1 => some .CALL
  | 0xf2 => some .CALLCODE
  | 0xf3 => some .RETURN
  | 0xf4 => some .DELEGATECALL
  | 0xf5 => some .CREATE2
  | 0xfa => some .STATICCALL
  | 0xfd => some .REVERT
  | 0xfe => some .INVALID
  | 0xff => some .SELFDESTRUCT
  | 0xc0 => some .PAYID
  | 0xc1 => some .ZUSDBAL
  | 0xc2 => some .ZBXPRICE
  | 0xc3 => some .ZBXTIME
  | 0xc4 => some .AASENDER
  | 0xc5 => some .CHAINVER
  | 0xc6 => some .BLOBFEE
  | 0xc7 => some .PAYIDSET
  | 0xc8 => some .ZBXBURN
  | 0xc9 => some .ZVMLOG
  | byte =>
    ((family byte 0x60 32).map .PUSH).or (((family byte 0x80 16).map .DUP).or
      (((family byte 0x90 16).map .SWAP).or ((family byte 0xa0 5).map .LOG)))

def isZvmNative : Opcode → Bool
  | .PAYID | .ZUSDBAL | .ZBXPRICE | .ZBXTIME | .AASENDER | .CHAINVER | .BLOBFEE | .PAYIDSET
  | .ZBXBURN | .ZVMLOG => true
  | _ => false

end Opcode

/-! ## Gas -/

def evmGasCost : Opcode → Nat
  | .STOP | .RETURN | .REVERT => 0
  | .ADD | .SUB | .LT | .GT | .SLT | .SGT | .EQ | .ISZERO | .AND | .OR | .XOR | .NOT | .BYTE
  | .SHL | .SHR | .SAR => 3
  | .MUL | .DIV | .SDIV | .MOD | .SMOD | .SIGNEXTEND => 5
  | .ADDMOD | .MULMOD => 8
  | .EXP => 10
  | .KECCAK256 => 30
  | .ADDRESS | .ORIGIN | .CALLER | .CALLVALUE | .CALLDATASIZE | .CODESIZE | .GASPRICE
  | .COINBASE | .TIMESTAMP | .NUMBER | .PREVRANDAO | .GASLIMIT | .CHAINID | .SELFBALANCE
  | .BASEFEE | .BLOBBASEFEE => 2
  | .BALANCE | .EXTCODESIZE | .EXTCODEHASH => 100
  | .BLOCKHASH => 20
  | .CALLDATALOAD => 3
  | .CALLDATACOPY | .CODECOPY | .RETURNDATACOPY => 3
  | .EXTCODECOPY => 100
  | .RETURNDATASIZE => 2
  | .POP | .PC | .MSIZE | .GAS => 2
  | .MLOAD | .MSTORE | .MSTORE8 => 3
  | .SLOAD => 100
  | .SSTORE => 100
  | .JUMP => 8
  | .JUMPI => 10
  | .JUMPDEST => 1
  | .PUSH0 => 2
  | .TLOAD | .TSTORE => 100
  | .MCOPY => 3
  | .BLOBHASH => 3
  | .PUSH _ | .DUP _ | .SWAP _ => 3
  | .LOG _ => 375
  | .CREATE => 32000
  | .CREATE2 => 32000
  | .CALL | .CALLCODE | .STATICCALL | .DELEGATECALL => 100
  | .SELFDESTRUCT => 5000
  | _ => 0

def zvmGasCost : Opcode → Nat
  | .PAYID => 200
  | .ZUSDBAL => 100
  | .ZBXPRICE => 50
  | .ZBXTIME => 2
  | .AASENDER => 2
  | .CHAINVER => 2
  | .BLOBFEE => 50
  | .PAYIDSET => 100
  | .ZBXBURN => 500
  | .ZVMLOG => 600
  | _ => 0

def opcodeGas (op : Opcode) : Nat :=
  if op.isZvmNative then zvmGasCost op else evmGasCost op

def u64Bound : Nat := 2 ^ 64

/-- `saturating_add` and `saturating_mul` of `u64` and `usize`. -/
def satU64 (n : Nat) : Nat := min n (u64Bound - 1)

/-- `(len as u64 + 31) / 32`, with the wrapping sum of a release build. -/
def wordCount (len : Nat) : Nat := (len + 31) % u64Bound / 32

def coldSloadCost : Nat := 2100
def warmSloadCost : Nat := 100
def coldAccountCost : Nat := 2600
def warmAccountCost : Nat := 100
def sstoreColdDelta : Nat := 2100

def expDynamicGas (exponentBe : Bytes) : Nat := 50 * (trimZeros exponentBe).length

def keccak256DynamicGas (len : Nat) : Nat := satU64 (6 * wordCount len)

def copyDynamicGas (len : Nat) : Nat := satU64 (3 * wordCount len)

def logDynamicGas (nTopics dataLen : Nat) : Nat :=
  satU64 (satU64 (375 * nTopics) + satU64 (8 * dataLen))

def memoryCost (w : Nat) : Nat := satU64 (satU64 (3 * w) + satU64 (w * w) / 512)

def memoryGasDelta (oldWords newWords : Nat) : Nat :=
  if newWords ≤ oldWords then 0 else memoryCost newWords - memoryCost oldWords

/-!
## Frames of the ZVM

The state of one frame of the interpreter (`context.rs`, `stack.rs`, `memory.rs` and the fields of
`ZvmInterpreter`), the methods of the host as requests (`host.rs`), and the monad in which the
instructions are written.
-/

/-! ## Contexts and results -/

structure ZvmContext where
  bytecode : Bytes
  calldata : Bytes
  caller : Address
  contract : Address
  value : Nat
  gasLimit : Nat
  blockNumber : Nat
  blockTimestamp : Nat
  baseFee : Nat
  blobBaseFee : Nat
  chainId : Nat
  isStatic : Bool
  aaSender : Option Address
  origin : Address

inductive ExecutionStatus
  | success
  | revert
  | outOfGas
  | invalidOpcode (byte : UInt8)
  | stackOverflow
  | zvmError (message : String)
  deriving DecidableEq, Repr

structure ZvmLog where
  address : Address
  topics : List H256
  data : Bytes
  deriving DecidableEq, Repr

structure ZvmStructuredLog where
  key : Bytes
  value : Bytes
  block : Nat
  index : UInt32
  deriving DecidableEq, Repr

structure ZvmResult where
  status : ExecutionStatus
  returnData : Bytes
  gasRemaining : Nat
  gasUsed : Nat
  logs : List ZvmLog
  zvmLogs : List ZvmStructuredLog
  deriving DecidableEq, Repr

inductive ZvmError
  | stackOverflow
  | stackUnderflow
  | outOfGas
  | invalidJump (dest : Nat)
  | staticStateChange
  | unexpectedEnd
  | invalidUtf8
  | invalidInput (message : String)
  | insufficientBalance
  deriving DecidableEq, Repr

def ZvmError.display : ZvmError → String
  | .stackOverflow => "stack overflow (max 1024 items)"
  | .stackUnderflow => "stack underflow"
  | .outOfGas => "out of gas"
  | .invalidJump dest => "invalid jump destination: " ++ toString dest
  | .staticStateChange => "state change in static context"
  | .unexpectedEnd => "unexpected end of bytecode"
  | .invalidUtf8 => "invalid UTF-8 in memory"
  | .invalidInput message => "invalid input: " ++ message
  | .insufficientBalance => "insufficient balance for ZBXBURN"

/-! ## The host -/

/-- The methods of `ZvmHost` with their arguments. `payIdLookup` and `storageReader` lend
the host to a precompile that reads it. -/
inductive HostCall
  | balance (addr : Address)
  | storageLoad (addr : Address) (key : H256)
  | storageStore (addr : Address) (key value : H256)
  | code (addr : Address)
  | codeHash (addr : Address)
  | blockHash (block : Nat)
  | transfer (src dst : Address) (amount : Nat)
  | nonce (addr : Address)
  | incNonce (addr : Address)
  | setCode (addr : Address) (code : Bytes)
  | resolvePayId (payId : Bytes)
  | payIdLookup
  | storageReader
  | zusdBalance (addr : Address)
  | zbxPriceUsd
  | blobBaseFee
  | hasPayId (addr : Address)
  | burnZbx (addr : Address) (amount : Nat)
  | emitZvmLog (key value : Bytes)
  | transientLoad (addr : Address) (key : H256)
  | transientStore (addr : Address) (key value : H256)
  | coinbase
  | blockGasLimit
  | prevrandao
  | gasPrice
  | blobHash (i : Nat)
  | isCallAllowed (target : Address)
  | markCreatedThisTx (addr : Address)
  | selfdestruct (contract beneficiary : Address)
  | emitLog (addr : Address) (topics : List H256) (data : Bytes)

/-- The Pay ID registry as the precompile sees it: `resolve` and `reverse`. -/
structure PayIdLookup where
  resolve : Bytes → Option Address
  reverse : Address → Option Bytes

def HostCall.Reply : HostCall → Type
  | .balance _ | .nonce _ | .incNonce _ | .zusdBalance _ | .zbxPriceUsd | .blobBaseFee
  | .blockGasLimit | .gasPrice => Nat
  | .storageLoad .. | .transientLoad .. | .codeHash _ | .blockHash _ | .prevrandao
  | .blobHash _ => H256
  | .code _ => Bytes
  | .resolvePayId _ => Option Address
  | .payIdLookup => PayIdLookup
  | .storageReader => Address → H256 → H256
  | .hasPayId _ | .isCallAllowed _ => Bool
  | .coinbase => Address
  | .transfer .. | .burnZbx .. => Except ZvmError Unit
  | .storageStore .. | .setCode .. | .emitZvmLog .. | .transientStore .. | .markCreatedThisTx _
  | .selfdestruct .. | .emitLog .. => Unit

/-- A call of a host method by the frame that runs `contract`. -/
structure Request where
  contract : Address
  call : HostCall

abbrev HostM := Interaction Request fun q => q.call.Reply

/-! ## Frames -/

structure Frame where
  stack : List H256
  memory : Bytes
  pc : Nat
  gas : Nat
  logs : List ZvmLog
  zvmLogs : List ZvmStructuredLog
  returnData : Bytes
  logIndex : UInt32
  accessedAddresses : List Address
  accessedSlots : List (Address × H256)

structure Env where
  ctx : ZvmContext
  depth : Nat
  jumpdests : List Bool

/-- The end of a frame other than by running past its code. `outOfFuel` belongs to the
model: the recursion bound was too small. -/
inductive Halt
  | stop (status : ExecutionStatus)
  | error (e : ZvmError)
  | panic
  | outOfFuel
  deriving DecidableEq, Repr

def FrameM (α : Type) := Env → Frame → HostM (EStateM.Result Halt Frame α)

namespace FrameM

variable {α β : Type}

protected def pure (a : α) : FrameM α := fun _ f => .ret (.ok a f)

protected def bind (x : FrameM α) (k : α → FrameM β) : FrameM β := fun env f => do
  match ← x env f with
  | .ok a f' => k a env f'
  | .error e f' => return .error e f'

instance : Monad FrameM where
  pure := FrameM.pure
  bind := FrameM.bind

def halt (h : Halt) : FrameM α := fun _ f => .ret (.error h f)

def fail (e : ZvmError) : FrameM α := halt (.error e)

def panic : FrameM α := halt .panic

def env : FrameM Env := fun env f => .ret (.ok env f)

def get : FrameM Frame := fun _ f => .ret (.ok f f)

def modify (g : Frame → Frame) : FrameM Unit := fun _ f => .ret (.ok () (g f))

def host (c : HostCall) : FrameM c.Reply := fun env f =>
  .ask ⟨env.ctx.contract, c⟩ fun r => .ret (.ok r f)

end FrameM

open FrameM

/-! ## The methods of the host -/

namespace Host

variable (addr : Address)

def balance : FrameM Nat := host (.balance addr)

def storageLoad (key : H256) : FrameM H256 := host (.storageLoad addr key)

def storageStore (key value : H256) : FrameM Unit :=
  host (.storageStore addr key value)

def code : FrameM Bytes := host (.code addr)

def codeHash : FrameM H256 := host (.codeHash addr)

def blockHash (block : Nat) : FrameM H256 := host (.blockHash block)

def transfer (src dst : Address) (amount : Nat) : FrameM Unit := do
  let reply : Except ZvmError Unit ← host (.transfer src dst amount)
  match reply with
  | .ok _ => return ()
  | .error e => fail e

def nonce : FrameM Nat := host (.nonce addr)

def incNonce : FrameM Nat := host (.incNonce addr)

def setCode (code : Bytes) : FrameM Unit := host (.setCode addr code)

def resolvePayId (payId : Bytes) : FrameM (Option Address) := host (.resolvePayId payId)

def payIdLookup : FrameM PayIdLookup := host .payIdLookup

def storageReader : FrameM (Address → H256 → H256) := host .storageReader

def zusdBalance : FrameM Nat := host (.zusdBalance addr)

def zbxPriceUsd : FrameM Nat := host .zbxPriceUsd

def blobBaseFee : FrameM Nat := host .blobBaseFee

def hasPayId : FrameM Bool := host (.hasPayId addr)

def burnZbx (amount : Nat) : FrameM Unit := do
  let reply : Except ZvmError Unit ← host (.burnZbx addr amount)
  match reply with
  | .ok _ => return ()
  | .error e => fail e

def emitZvmLog (key value : Bytes) : FrameM Unit := host (.emitZvmLog key value)

def transientLoad (key : H256) : FrameM H256 := host (.transientLoad addr key)

def transientStore (key value : H256) : FrameM Unit :=
  host (.transientStore addr key value)

def coinbase : FrameM Address := host .coinbase

def blockGasLimit : FrameM Nat := host .blockGasLimit

def prevrandao : FrameM H256 := host .prevrandao

def gasPrice : FrameM Nat := host .gasPrice

def blobHash (i : Nat) : FrameM H256 := host (.blobHash i)

def isCallAllowed (target : Address) : FrameM Bool := host (.isCallAllowed target)

def markCreatedThisTx : FrameM Unit := host (.markCreatedThisTx addr)

def selfdestruct (contract beneficiary : Address) : FrameM Unit :=
  host (.selfdestruct contract beneficiary)

def emitLog (topics : List H256) (data : Bytes) : FrameM Unit :=
  host (.emitLog addr topics data)

end Host

/-! ## The stack -/

def maxStackDepth : Nat := 1024

def push (w : H256) : FrameM Unit := do
  let f ← get
  if maxStackDepth ≤ f.stack.length then fail .stackOverflow
  else modify fun f => { f with stack := w :: f.stack }

/-- `push_u64` and `push_u128`. -/
def pushNat (n : Nat) : FrameM Unit := push (BitVec.ofNat 256 n)

def pushAddress (addr : Address) : FrameM Unit := push (addr.setWidth 256)

def pushBool (b : Bool) : FrameM Unit := pushNat (if b then 1 else 0)

def pop : FrameM H256 := do
  let f ← get
  match f.stack with
  | [] => fail .stackUnderflow
  | w :: rest =>
    modify fun f => { f with stack := rest }
    return w

/-- `pop_u64`: the low 64 bits. -/
def popU64 : FrameM Nat := return (← pop).toNat % 2 ^ 64

/-- `pop_u128`: the low 128 bits. -/
def popU128 : FrameM Nat := return (← pop).toNat % 2 ^ 128

def popAddress : FrameM Address := return (← pop).setWidth 160

/-- Duplicate the `n`-th word from the top. -/
def dup (n : Nat) : FrameM Unit := do
  let f ← get
  match f.stack[n - 1]? with
  | none => fail .stackUnderflow
  | some w => push w

/-- Exchange the top with the `n`-th word below it. -/
def swap (n : Nat) : FrameM Unit := do
  let f ← get
  match f.stack with
  | [] => fail .stackUnderflow
  | top :: rest =>
    match rest[n - 1]? with
    | none => fail .stackUnderflow
    | some w => modify fun f => { f with stack := w :: rest.set (n - 1) top }

/-! ## Gas -/

def chargeGas (amount : Nat) : FrameM Unit := do
  let f ← get
  if f.gas < amount then
    modify fun f => { f with gas := 0 }
    fail .outOfGas
  else modify fun f => { f with gas := f.gas - amount }

def memoryWords (f : Frame) : Nat := (f.memory.length + 31) / 32

def chargeMemExpansion (newSize : Nat) : FrameM Unit := do
  if newSize = 0 then return ()
  let f ← get
  let delta := memoryGasDelta (memoryWords f) (wordCount newSize)
  if delta = 0 then return ()
  chargeGas delta

/-- Charge for the window of `len` bytes at `off`; the sum saturates. -/
def chargeWindow (off len : Nat) : FrameM Unit := chargeMemExpansion (satU64 (off + len))

/-- Mark an account as accessed; the first access costs more. -/
def accessAddress (addr : Address) : FrameM Unit := do
  let f ← get
  if addr ∈ f.accessedAddresses then chargeGas 0
  else
    modify fun f => { f with accessedAddresses := addr :: f.accessedAddresses }
    chargeGas (coldAccountCost - warmAccountCost)

/-- Mark a slot as accessed; the first access costs `coldCost`. -/
def accessSlot (slot : Address × H256) (coldCost : Nat) : FrameM Unit := do
  let f ← get
  if slot ∈ f.accessedSlots then chargeGas 0
  else
    modify fun f => { f with accessedSlots := slot :: f.accessedSlots }
    chargeGas coldCost

/-! ## Memory -/

/-- Vectors hold at most `isize::MAX` bytes. -/
def vecBound : Nat := 2 ^ 63

def setMemory (memory : Bytes) : FrameM Unit := modify fun f => { f with memory := memory }

/-- Grow to at least `size` bytes, in words. Near `2 ^ 64` the rounded size wraps to zero
and the memory is truncated. -/
def resize (size : Nat) : FrameM Unit := do
  let f ← get
  if f.memory.length < size then
    let newSize := wordCount size * 32
    if vecBound ≤ newSize then panic
    else setMemory (f.memory.take newSize ++ List.replicate (newSize - f.memory.length) 0)
  else return ()

def slice (start stop : Nat) : FrameM Bytes := do
  let f ← get
  if start ≤ stop ∧ stop ≤ f.memory.length then return (f.memory.drop start).take (stop - start)
  else panic

/-- Replace the slice that starts at `start` by `data`. -/
def overwrite (start stop : Nat) (data : Bytes) : FrameM Unit := do
  let f ← get
  if start ≤ stop ∧ stop ≤ f.memory.length then
    setMemory (f.memory.take start ++ data ++ f.memory.drop stop)
  else panic

/-- `offset + len` as a `usize`. -/
def wrapAdd (offset len : Nat) : Nat := (offset + len) % u64Bound

def readSlice (offset len : Nat) : FrameM Bytes := do
  resize (wrapAdd offset len)
  slice offset (wrapAdd offset len)

variable (offset : Nat)

def load : FrameM H256 := return H256.ofBytes (← readSlice offset 32)

def store (word : H256) : FrameM Unit := do
  resize (wrapAdd offset 32)
  overwrite offset (wrapAdd offset 32) word.toBytes

def store8 (byte : UInt8) : FrameM Unit := do
  resize (wrapAdd offset 1)
  let f ← get
  if offset < f.memory.length then setMemory (f.memory.set offset byte) else panic

def writeSlice (src : Bytes) : FrameM Unit := do
  if src = [] then return ()
  resize (wrapAdd offset src.length)
  overwrite offset (wrapAdd offset src.length) src

def memoryCopy (dst src len : Nat) : FrameM Unit := do
  if len = 0 then return ()
  resize (satU64 (max dst src + len))
  let bytes ← slice src (wrapAdd src len)
  let f ← get
  if dst + bytes.length ≤ f.memory.length then
    setMemory (f.memory.take dst ++ bytes ++ f.memory.drop (dst + bytes.length))
  else panic

def readString (offset len : Nat) : FrameM Bytes := do
  let bytes ← readSlice offset len
  if (String.fromUTF8? ⟨bytes.toArray⟩).isSome then return bytes else fail .invalidUtf8

/-- `store8` in a loop: the first `len` bytes of `data` from `offset` on. -/
def storeBytes (offset : Nat) : Bytes → FrameM Unit
  | [] => return ()
  | b :: rest => do
    store8 offset b
    storeBytes (wrapAdd offset 1) rest

/-- `vec![0u8; len]` with the bytes of `src` from `srcOff` copied over its start. -/
def paddedCopy (src : Bytes) (srcOff len : Nat) : FrameM Bytes :=
  if vecBound ≤ len then panic
  else
    let bytes := (src.drop srcOff).take len
    return bytes ++ List.replicate (len - bytes.length) 0

end ZbxChain.Zvm

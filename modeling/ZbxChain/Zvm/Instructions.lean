import ZbxChain.Zvm.Rules

/-!
# What an instruction can do

Once for every instruction: the requests that it can make of the host (`Asks`), the sub-frame that
it can start (`Starts`), and that its gas does not grow. A sub-frame is paid for in advance: what a
call or a creation sets aside is at least what comes back (`steps_exec`).
-/

namespace ZbxChain.Zvm

open FrameM Steps CreatePlan

/-! ## Instructions that start a sub-frame -/

inductive SubOp
  | call (kind : ZvmCallKind)
  | create (withSalt : Bool)
  deriving DecidableEq

namespace SubOp

def exec (P : Precompiles) (run : FrameRun) : SubOp → FrameM Unit
  | .call kind => doCall P run kind
  | .create withSalt => doCreate run withSalt

/-- Everything up to the start of the sub-frame, which is returned if there is one. -/
def start (P : Precompiles) : SubOp → FrameM (Option (Env × Frame))
  | .call kind => do return (← prepareCall P kind).map fun plan => (plan.env, plan.frame)
  | .create withSalt => do return (← prepareCreate withSalt).map fun plan => (plan.env, plan.frame)

def opcode : SubOp → Opcode
  | .call .call => .CALL
  | .call .callCode => .CALLCODE
  | .call .delegateCall => .DELEGATECALL
  | .call .staticCall => .STATICCALL
  | .create false => .CREATE
  | .create true => .CREATE2

end SubOp

/-- The sub-frames that an instruction can start in `env`. -/
inductive Starts (env : Env) : SubOp → Env → Frame → Prop
  | call (kind : ZvmCallKind) (target : Address) (code calldata : Bytes) (value forwarded : Nat)
      (addresses : List Address) (slots : List (Address × H256))
      (hdepth : env.depth < callDepthLimit) :
      Starts env (.call kind)
        (Env.new (callContext env.ctx kind target code calldata value forwarded) (env.depth + 1))
        (Frame.new forwarded addresses slots)
  | create (withSalt : Bool) (newAddr : Address) (initcode : Bytes) (value forwarded : Nat)
      (addresses : List Address) (slots : List (Address × H256))
      (hdepth : env.depth < callDepthLimit) (hstatic : env.ctx.isStatic = false) :
      Starts env (.create withSalt)
        (Env.new (createContext env.ctx newAddr initcode value forwarded) (env.depth + 1))
        (Frame.new forwarded addresses slots)

section

variable {env subEnv : Env} {op : SubOp} {subFrame : Frame}

section

variable (h : Starts env op subEnv subFrame)

include h

theorem Starts.gas_eq : subFrame.gas = subEnv.ctx.gasLimit := by
  cases h <;> rfl

theorem Starts.depth_eq : subEnv.depth = env.depth + 1 := by
  cases h <;> rfl

theorem Starts.depth_le : subEnv.depth ≤ callDepthLimit := by
  cases h with
  | call _ _ _ _ _ _ _ _ hdepth => exact hdepth
  | create _ _ _ _ _ _ _ hdepth => exact hdepth

end

theorem Starts.not_static {withSalt : Bool} (h : Starts env (.create withSalt) subEnv subFrame) :
    env.ctx.isStatic = false := by
  cases h with
  | create _ _ _ _ _ _ _ _ hstatic => exact hstatic

end

/-! ## Requests -/

/-- The requests of a creation by `creator`. -/
inductive CreateAsks (creator : Address) : HostCall → Prop
  | balance : CreateAsks creator (.balance creator)
  | nonce (addr : Address) : CreateAsks creator (.nonce addr)
  | incNonce (addr : Address) : CreateAsks creator (.incNonce addr)
  | code (newAddr : Address) : CreateAsks creator (.code newAddr)
  | transfer (newAddr : Address) (value : Nat) : CreateAsks creator (.transfer creator newAddr value)
  | setCode (newAddr : Address) (code : Bytes) : CreateAsks creator (.setCode newAddr code)
  | markCreatedThisTx (newAddr : Address) : CreateAsks creator (.markCreatedThisTx newAddr)

/-- The requests of an instruction that starts a sub-frame, those of the sub-frame apart. -/
inductive SubOp.Asks (env : Env) : SubOp → HostCall → Prop
  | payIdLookup (kind : ZvmCallKind) : Asks env (.call kind) .payIdLookup
  | storageReader (kind : ZvmCallKind) : Asks env (.call kind) .storageReader
  | isCallAllowed (kind : ZvmCallKind) (target : Address) :
      Asks env (.call kind) (.isCallAllowed target)
  | code (kind : ZvmCallKind) (target : Address) : Asks env (.call kind) (.code target)
  | balance : Asks env (.call .call) (.balance env.ctx.contract)
  | transfer (target : Address) (value : Nat) (hstatic : env.ctx.isStatic = false) :
      Asks env (.call .call) (.transfer env.ctx.contract target value)
  | create (withSalt : Bool) {c : HostCall} (hstatic : env.ctx.isStatic = false)
      (hc : CreateAsks env.ctx.contract c) : Asks env (.create withSalt) c

/-- The requests that an instruction can make in `env`. -/
inductive Asks (env : Env) : Opcode → HostCall → Prop
  | balance (addr : Address) : Asks env .BALANCE (.balance addr)
  | gasprice : Asks env .GASPRICE .gasPrice
  | extcodesize (addr : Address) : Asks env .EXTCODESIZE (.code addr)
  | extcodecopy (addr : Address) : Asks env .EXTCODECOPY (.code addr)
  | extcodehash (addr : Address) : Asks env .EXTCODEHASH (.codeHash addr)
  | blockhash (block : Nat) : Asks env .BLOCKHASH (.blockHash block)
  | coinbase : Asks env .COINBASE .coinbase
  | prevrandao : Asks env .PREVRANDAO .prevrandao
  | gaslimit : Asks env .GASLIMIT .blockGasLimit
  | selfbalance : Asks env .SELFBALANCE (.balance env.ctx.contract)
  | blobhash (i : Nat) : Asks env .BLOBHASH (.blobHash i)
  | sload (key : H256) : Asks env .SLOAD (.storageLoad env.ctx.contract key)
  | sstore (key value : H256) (hstatic : env.ctx.isStatic = false) :
      Asks env .SSTORE (.storageStore env.ctx.contract key value)
  | tload (key : H256) : Asks env .TLOAD (.transientLoad env.ctx.contract key)
  | tstore (key value : H256) (hstatic : env.ctx.isStatic = false) :
      Asks env .TSTORE (.transientStore env.ctx.contract key value)
  | log (n : Fin 5) (topics : List H256) (data : Bytes) (hstatic : env.ctx.isStatic = false) :
      Asks env (.LOG n) (.emitLog env.ctx.contract topics data)
  | selfdestruct (beneficiary : Address) (hstatic : env.ctx.isStatic = false) :
      Asks env .SELFDESTRUCT (.selfdestruct env.ctx.contract beneficiary)
  | payid (payId : Bytes) : Asks env .PAYID (.resolvePayId payId)
  | zusdbal (addr : Address) : Asks env .ZUSDBAL (.zusdBalance addr)
  | zbxprice : Asks env .ZBXPRICE .zbxPriceUsd
  | blobfee : Asks env .BLOBFEE .blobBaseFee
  | payidset (addr : Address) : Asks env .PAYIDSET (.hasPayId addr)
  | zbxburn (amount : Nat) (hstatic : env.ctx.isStatic = false) :
      Asks env .ZBXBURN (.burnZbx env.ctx.caller amount)
  | zvmlog (key value : Bytes) : Asks env .ZVMLOG (.emitZvmLog key value)
  | sub {op : SubOp} {c : HostCall} (h : op.Asks env c) : Asks env op.opcode c

namespace Bounds

/-- The request `c env` may be made by the frames that are considered. -/
def Allows (B : Bounds) (c : Env → HostCall) : Prop :=
  ∀ env, B.envs env → B.asks env ⟨env.ctx.contract, c env⟩

variable {B : Bounds} {c : Env → HostCall}

theorem Allows.at (h : B.Allows c) (env : Env) : (B.restrict (· = env)).Allows fun _ => c env := by
  rintro _ ⟨henv, rfl⟩
  exact h _ henv

def Ran (B : Bounds) (gas : Nat) (r : Halt × Frame) : Prop :=
  r.2.gas ≤ gas ∧ (r.1 = .outOfFuel → B.mayRunOut)

def Sub (B : Bounds) (run : FrameRun) : Prop :=
  ∀ env op subEnv subFrame, B.envs env → Starts env op subEnv subFrame → subFrame.gas < B.gas →
    (run subEnv subFrame).Ensures (B.asks env) (B.Ran subFrame.gas)

end Bounds

section

variable {α : Type} {B : Bounds} {reserve : α → Nat} {Q : Env → α → Prop} {x : FrameM α}

theorem spec_bind_requireNotStatic (h : Spec (B.restrict (·.ctx.isStatic = false)) x reserve Q) :
    Spec B (requireNotStatic >>= fun _ => x) reserve Q := by
  refine spec_bind_check (c := fun env => env.ctx.isStatic = true) ?_
  refine ⟨fun env f henv hgas => ?_⟩
  exact h.ensures env f ⟨henv.1, Bool.eq_false_iff.mpr henv.2⟩ hgas

theorem spec_bind_checkStaticValue {kind : ZvmCallKind} {value : Nat}
    (h : Spec (B.restrict fun env => kind = .call ∧ 0 < value → env.ctx.isStatic = false)
      x reserve Q) : Spec B (checkStaticValue kind value >>= fun _ => x) reserve Q := by
  refine spec_bind_check
    (c := fun env => (kind = .call ∨ kind = .callCode) ∧ env.ctx.isStatic = true ∧ 0 < value) ?_
  refine ⟨fun env f henv hgas => h.ensures env f ⟨henv.1, fun hvalue => ?_⟩ hgas⟩
  refine Bool.eq_false_iff.mpr fun hstatic => henv.2 ?_
  exact ⟨.inl hvalue.1, hstatic, hvalue.2⟩

end

/-! ## Before a sub-frame -/

def reserved (sub : Option (Env × Frame)) : Nat := (sub.map (·.2.gas)).getD 0

def Planned (op : SubOp) (env : Env) (sub : Option (Env × Frame)) : Prop :=
  ∀ p, sub = some p → Starts env op p.1 p.2

theorem planned_none (op : SubOp) (env : Env) : Planned op env none := by
  intro p hp
  cases hp

def CallPlan.sub (plan : CallPlan) : Env × Frame := (plan.env, plan.frame)

def CreatePlan.sub (plan : CreatePlan) : Env × Frame := (plan.env, plan.frame)

section

variable {B : Bounds}

theorem steps_transfer {src dst : Address} {amount : Nat}
    (h : B.Allows fun _ => .transfer src dst amount) : Steps B (Host.transfer src dst amount) := by
  refine bind (steps_host h) fun reply => ?_
  cases reply with
  | ok _ => exact steps_pure _
  | error e => exact spec_fail e

theorem steps_settlePrecompile (retOff retLen : Nat) (answer : Option (Bytes × Nat)) :
    Steps B (settlePrecompile retOff retLen answer) := by
  cases answer with
  | none => exact steps.clearReturnData.bind fun _ => steps.pushNat 0
  | some answer =>
    refine bind (steps_modify fun _ => Nat.sub_le _ _) fun _ => ?_
    refine (steps_storeBytes _ _).bind fun _ => (steps.setReturnData _).bind fun _ => ?_
    exact steps.pushNat 1

variable {target : Address} {withSalt : Bool} {calldata initcode : Bytes}
  {gasReq retLen retOff value : Nat} {kind : ZvmCallKind}

theorem steps_doPrecompileCall {P : Precompiles} (hlookup : B.Allows fun _ => .payIdLookup)
    (hreader : B.Allows fun _ => .storageReader) :
    Steps B (doPrecompileCall P target calldata gasReq retOff retLen) := by
  refine steps_get.bind fun f => spec_ite (fun _ => ?_) fun _ => spec_ite (fun _ => ?_) fun _ =>
    spec_ite (fun _ => ?_) fun _ => ?_
  · exact bind (steps_host hlookup) fun _ => steps_settlePrecompile _ _ _
  · exact bind (steps_host hreader) fun _ => steps_settlePrecompile _ _ _
  · refine bind (steps_host hreader) fun reader => spec_bind_env fun env => ?_
    exact steps_settlePrecompile _ _ _
  · exact steps_settlePrecompile _ _ _

theorem steps_popValue (kind : ZvmCallKind) : Steps B (popValue kind) := by
  cases kind with
  | call | callCode => exact steps.popU128
  | delegateCall | staticCall => exact steps_pure 0

theorem steps_checkStaticValue (kind : ZvmCallKind) (value : Nat) :
    Steps B (checkStaticValue kind value) :=
  spec_bind_env fun _ => spec_ite (fun _ => spec_fail _) fun _ => steps_pure _

theorem spec_refuseCall (op : SubOp) :
    Spec B refuseCall (fun plan => reserved (plan.map CallPlan.sub))
      fun env plan => Planned op env (plan.map CallPlan.sub) := by
  refine steps.clearReturnData.bind fun _ => (steps.pushNat 0).bind fun _ => ?_
  exact spec_pure rfl fun env _ => planned_none op env

theorem spec_planCall {code : Bytes} (hdepth : ∀ env, B.envs env → env.depth < callDepthLimit) :
    Spec B (planCall kind target code calldata value gasReq retOff retLen)
      (fun plan => reserved (plan.map CallPlan.sub))
      fun env plan => Planned (.call kind) env (plan.map CallPlan.sub) := by
  refine ⟨fun env f henv _ => ⟨?_, ?_⟩⟩
  · show f.gas - min gasReq (f.gas / 64 * 63) + min gasReq (f.gas / 64 * 63) ≤ f.gas
    omega
  · rintro p ⟨⟩
    exact Starts.call kind target code calldata value _ _ _ (hdepth env henv)

theorem steps_sendValue (hbalance : kind = .call → B.Allows fun env => .balance env.ctx.contract)
    (htransfer : kind = .call ∧ 0 < value →
      B.Allows fun env => .transfer env.ctx.contract target value) :
    Steps B (sendValue kind target value) := by
  refine spec_bind_env fun env => spec_ite (fun hvalue => ?_) fun _ => steps_pure _
  refine bind (steps_host ((hbalance hvalue.1).at env)) fun balance => ?_
  refine spec_ite (fun _ => steps_pure _) fun _ => ?_
  exact (steps_transfer ((htransfer hvalue).at env)).bind fun _ => steps_pure _

theorem spec_prepareCall (P : Precompiles) (kind : ZvmCallKind)
    (hask : ∀ env c, B.envs env → SubOp.Asks env (.call kind) c →
      B.asks env ⟨env.ctx.contract, c⟩) :
    Spec B (prepareCall P kind) (fun plan => reserved (plan.map CallPlan.sub))
      fun env plan => Planned (.call kind) env (plan.map CallPlan.sub) := by
  refine steps.popU64.bind fun gasReq => steps.popAddress.bind fun target => ?_
  refine (steps_popValue kind).bind fun value => spec_bind_checkStaticValue ?_
  refine steps.popU64.bind fun argsOff => steps.popU64.bind fun argsLen => ?_
  refine steps.popU64.bind fun retOff => steps.popU64.bind fun retLen => ?_
  refine (steps.accessAddress target).bind fun _ => (steps_chargeWindow _ _).bind fun _ => ?_
  refine (steps_chargeWindow _ _).bind fun _ => spec_bind_env fun env => ?_
  refine spec_ite (fun _ => spec_refuseCall _) fun hdepth => ?_
  refine (steps_readSlice _ _).bind fun calldata => spec_ite (fun _ => ?_) fun _ => ?_
  · refine (steps_doPrecompileCall ?_ ?_).bind fun _ => ?_
    · exact fun e he => hask e _ he.1.1 (.payIdLookup kind)
    · exact fun e he => hask e _ he.1.1 (.storageReader kind)
    · exact spec_pure rfl fun e _ => planned_none _ e
  refine bind (steps_host fun e he => hask e _ he.1.1 (.isCallAllowed kind target)) ?_
  refine fun allowed => spec_ite (fun _ => spec_refuseCall _) fun _ => ?_
  refine bind (steps_host fun e he => hask e _ he.1.1 (.code kind target)) fun code => ?_
  refine (steps_sendValue ?_ ?_).bind fun sent => ?_
  · rintro rfl e he
    exact hask e _ he.1.1 .balance
  · rintro ⟨rfl, hvalue⟩ e he
    exact hask e _ he.1.1 (.transfer target value (he.1.2 ⟨rfl, hvalue⟩))
  refine spec_ite (fun _ => spec_refuseCall _) fun _ => spec_planCall ?_
  rintro e ⟨_, rfl⟩
  exact Nat.lt_of_not_le hdepth

theorem spec_refuseCreate (op : SubOp) : Spec B refuseCreate (fun plan => reserved (plan.map sub))
      fun env plan => Planned op env (plan.map sub) :=
  (steps.push 0).bind fun _ => spec_pure rfl fun env _ => planned_none op env

theorem spec_planCreate {newAddr : Address}
    (henv : ∀ env, B.envs env → env.depth < callDepthLimit ∧ env.ctx.isStatic = false) :
    Spec B (planCreate newAddr initcode value) (fun plan => reserved (plan.map sub))
      fun env plan => Planned (.create withSalt) env (plan.map sub) := by
  refine ⟨fun env f hB _ => ⟨?_, ?_⟩⟩
  · show f.gas - f.gas / 64 * 63 + f.gas / 64 * 63 ≤ f.gas
    omega
  · rintro p ⟨⟩
    exact Starts.create withSalt newAddr initcode value _ _ _ (henv env hB).1 (henv env hB).2

theorem spec_claimAddress {creator : Address} {salt : Option H256}
    (hask : ∀ c, CreateAsks creator c → B.Allows fun _ => c)
    (henv : ∀ env, B.envs env → env.depth < callDepthLimit ∧ env.ctx.isStatic = false) :
    Spec B (claimAddress creator salt initcode value) (fun plan => reserved (plan.map sub))
      fun env plan => Planned (.create withSalt) env (plan.map sub) := by
  refine bind (steps_host (hask _ (.nonce _))) fun creatorNonce => ?_
  refine bind (steps_host (hask _ (.incNonce _))) fun _ => ?_
  refine bind (steps_host (hask _ (.code _))) fun code => ?_
  refine spec_ite (fun _ => spec_refuseCreate _) fun _ => ?_
  refine bind (steps_host (hask _ (.nonce _))) fun newNonce => ?_
  refine spec_ite (fun _ => spec_refuseCreate _) fun _ => ?_
  have hendow : ∀ newAddr, Steps B (endow creator newAddr value) := fun newAddr =>
    spec_ite (fun _ => steps_transfer (hask _ (.transfer newAddr value))) fun _ => steps_pure _
  refine (hendow _).bind fun _ => bind (steps_host (hask _ (.incNonce _))) fun _ => ?_
  exact spec_planCreate henv

theorem steps_popSalt (withSalt : Bool) : Steps B (popSalt withSalt) := by
  cases withSalt with
  | false => exact steps_pure none
  | true => exact steps.pop.bind fun _ => steps_pure _

theorem steps_chargeInitcode (withSalt : Bool) (off len : Nat) :
    Steps B (chargeInitcode withSalt off len) := by
  refine (steps.chargeGas _).bind fun _ => (steps.chargeGas _).bind fun _ => ?_
  exact steps_chargeWindow _ _

theorem spec_prepareCreate (withSalt : Bool)
    (hask : ∀ env c, B.envs env → SubOp.Asks env (.create withSalt) c →
      B.asks env ⟨env.ctx.contract, c⟩) :
    Spec B (prepareCreate withSalt) (fun plan => reserved (plan.map sub))
      fun env plan => Planned (.create withSalt) env (plan.map sub) := by
  refine spec_bind_requireNotStatic (steps.popU128.bind fun value => ?_)
  refine steps.popU64.bind fun off => steps.popU64.bind fun len => ?_
  refine (steps_popSalt withSalt).bind fun salt => spec_ite (fun _ => ?_) fun _ => ?_
  · exact steps.clearReturnData.bind fun _ => spec_refuseCreate _
  refine (steps_chargeInitcode withSalt off len).bind fun _ => spec_bind_env fun env => ?_
  have hcreate : ∀ c, CreateAsks env.ctx.contract c →
      ((B.restrict (·.ctx.isStatic = false)).restrict (· = env)).Allows fun _ => c := by
    rintro c hc e ⟨⟨he, hstatic⟩, rfl⟩
    exact hask e c he (.create withSalt hstatic hc)
  refine spec_ite (fun _ => ?_) fun hdepth => ?_
  · exact steps.clearReturnData.bind fun _ => spec_refuseCreate _
  refine bind (steps_host (hcreate _ .balance)) fun balance => ?_
  refine spec_ite (fun _ => spec_refuseCreate _) fun _ => ?_
  refine (steps_readSlice _ _).bind fun initcode => spec_claimAddress hcreate ?_
  rintro e ⟨⟨_, hstatic⟩, rfl⟩
  exact ⟨Nat.lt_of_not_le hdepth, hstatic⟩

theorem spec_start (P : Precompiles) {op : SubOp}
    (hask : ∀ env c, B.envs env → op.Asks env c → B.asks env ⟨env.ctx.contract, c⟩) :
    Spec B (op.start P) reserved (Planned op) := by
  cases op with
  | call kind =>
    refine (spec_prepareCall P kind hask).bind fun env f plan _ _ hplan => ?_
    exact ⟨le_rfl, hplan⟩
  | create withSalt =>
    refine (spec_prepareCreate withSalt hask).bind fun env f plan _ _ hplan => ?_
    exact ⟨le_rfl, hplan⟩

end

/-! ## After a sub-frame -/

theorem satU64_le (n : Nat) : satU64 n ≤ n := Nat.min_le_left _ _

section

variable {B : Bounds} {env subEnv : Env} {f subFrame : Frame} {run : FrameRun} {P : Precompiles}
  {op : SubOp}

theorem ended_runSub {A : Request → Prop}
    (hrun : (run subEnv subFrame).Ensures A (B.Ran subFrame.gas)) (env : Env) (f : Frame) :
    (runSub run subEnv subFrame env f).Ensures A (Ended B (fun r => r.1.gasRemaining)
        (fun r => r.2.gas ≤ subFrame.gas ∧ ∃ status, r.1 = finish subEnv r.2 status)
        (f.gas + subFrame.gas)) := by
  refine hrun.bind fun r hr => ?_
  obtain ⟨halt, sub⟩ := r
  have hgas : f.gas + sub.gas ≤ f.gas + subFrame.gas := Nat.add_le_add_left hr.1 _
  cases halt with
  | stop status => exact ⟨hgas, hr.1, status, rfl⟩
  | error e => exact ⟨hgas, hr.1, .zvmError e.display, rfl⟩
  | panic => exact ⟨Nat.le_add_right _ _, nofun⟩
  | outOfFuel => exact ⟨Nat.le_add_right _ _, fun _ => hr.2 rfl⟩

theorem ended_absorb {result : ZvmResult} {sub : Frame} {x : FrameM Unit} (hx : Steps B x)
    {env : Env} {f : Frame} (henv : B.envs env) (hgas : f.gas + result.gasRemaining < B.gas) :
    ((absorb result sub >>= fun _ => x) env f).Ensures (B.asks env)
      (Ended B (fun _ => 0) (fun _ => True) (f.gas + result.gasRemaining)) := by
  have hback : satU64 (f.gas + result.gasRemaining) ≤ f.gas + result.gasRemaining := satU64_le _
  have hrest := hx.ensures env
    { f with
      accessedAddresses := sub.accessedAddresses ∪ f.accessedAddresses
      accessedSlots := sub.accessedSlots ∪ f.accessedSlots
      gas := satU64 (f.gas + result.gasRemaining) } henv (Nat.lt_of_le_of_lt hback hgas)
  exact hrest.mono (fun _ hq => hq) fun _ hr => hr.mono hback

theorem steps_finishCall (plan : CallPlan) (result : ZvmResult) :
    Steps B (do
      setReturnData result.returnData
      storeBytes plan.retOff (result.returnData.take plan.retLen)
      pushBool (result.status = .success)) := by
  refine (steps.setReturnData _).bind fun _ => (steps_storeBytes _ _).bind fun _ => ?_
  exact steps.pushBool _

theorem steps_deploy {newAddr : Address} {deployed : Bytes}
    (hset : B.Allows fun _ => .setCode newAddr deployed)
    (hmark : B.Allows fun _ => .markCreatedThisTx newAddr) : Steps B (deploy newAddr deployed) := by
  refine spec_ite (fun _ => steps.push 0) fun _ => spec_ite (fun _ => steps.push 0) fun _ => ?_
  refine steps_get.bind fun f => spec_ite (fun _ => steps.push 0) fun _ => ?_
  refine bind (steps_modify fun _ => Nat.sub_le _ _) fun _ => ?_
  refine bind (steps_host hset) fun _ => bind (steps_host hmark) fun _ => ?_
  exact steps.clearReturnData.bind fun _ => steps.pushAddress newAddr

theorem steps_finishCreate (newAddr : Address) (result : ZvmResult)
    (hset : B.Allows fun _ => .setCode newAddr result.returnData)
    (hmark : B.Allows fun _ => .markCreatedThisTx newAddr) :
    Steps B (if result.status = .success then deploy newAddr result.returnData
      else do
        setReturnData result.returnData
        push 0) := by
  refine spec_ite (fun _ => steps_deploy hset hmark) fun _ => ?_
  exact (steps.setReturnData _).bind fun _ => steps.push 0

theorem ended_sub (hrun : B.Sub run) {settle : ZvmResult → Frame → FrameM Unit} (henv : B.envs env)
    (hstarts : Starts env op subEnv subFrame) (hgas : f.gas + subFrame.gas < B.gas)
    (hsettle : ∀ result sub f', f'.gas + result.gasRemaining < B.gas →
      (settle result sub env f').Ensures (B.asks env)
        (Ended B (fun _ => 0) (fun _ => True) (f'.gas + result.gasRemaining))) :
    ((runSub run subEnv subFrame >>= fun r => settle r.1 r.2) env f).Ensures (B.asks env)
      (Ended B (fun _ => 0) (fun _ => True) (f.gas + subFrame.gas)) := by
  have hsub := hrun env op subEnv subFrame henv hstarts
    (Nat.lt_of_le_of_lt (Nat.le_add_left _ _) hgas)
  refine (ended_runSub hsub env f).bind fun r hr => ?_
  cases r with
  | ok r f' =>
    have hrest := hsettle r.1 r.2 f' (Nat.lt_of_le_of_lt hr.1 hgas)
    exact hrest.mono (fun _ hq => hq) fun _ h => h.mono hr.1
  | error e f' => exact hr

theorem steps_doCall {kind : ZvmCallKind} (hrun : B.Sub run)
    (hask : ∀ env c, B.envs env → SubOp.Asks env (.call kind) c → B.asks env ⟨env.ctx.contract, c⟩) :
    Steps B (doCall P run kind) := by
  refine (spec_prepareCall P kind hask).bind fun env f plan henv hgas hplan => ?_
  cases plan with
  | none => exact ⟨le_rfl, trivial⟩
  | some plan =>
    refine ended_sub hrun henv (hplan _ rfl) hgas fun result sub f' hgas' => ?_
    exact ended_absorb (steps_finishCall plan result) henv hgas'

theorem steps_doCreate {withSalt : Bool} (hrun : B.Sub run)
    (hask : ∀ env c, B.envs env → SubOp.Asks env (.create withSalt) c →
      B.asks env ⟨env.ctx.contract, c⟩) : Steps B (doCreate run withSalt) := by
  refine (spec_prepareCreate withSalt hask).bind fun env f plan henv hgas hplan => ?_
  cases plan with
  | none => exact ⟨le_rfl, trivial⟩
  | some plan =>
    have hstarts : Starts env (.create withSalt) plan.env plan.frame := hplan _ rfl
    have hstatic : env.ctx.isStatic = false := hstarts.not_static
    refine ended_sub hrun henv hstarts hgas fun result sub f' hgas' => ?_
    have hcreate : ∀ c, CreateAsks env.ctx.contract c → (B.restrict (· = env)).Allows fun _ => c := by
      rintro c hc e ⟨he, rfl⟩
      exact hask e c he (.create withSalt hstatic hc)
    have hrest := steps_finishCreate plan.newAddr result (hcreate _ (.setCode _ _))
      (hcreate _ (.markCreatedThisTx _))
    exact ended_absorb hrest ⟨henv, rfl⟩ hgas'

theorem steps_exec (hrun : B.Sub run)
    (hask : ∀ env c, B.envs env → op.Asks env c → B.asks env ⟨env.ctx.contract, c⟩) :
    Steps B (op.exec P run) := by
  cases op with
  | call kind => exact steps_doCall hrun hask
  | create withSalt => exact steps_doCreate hrun hask

end

/-! ## The other instructions -/

section

variable {B : Bounds}

theorem steps_andNext {x : FrameM Unit} (hx : Steps B x) : Steps B (andNext x) :=
  hx.bind fun _ => steps_pure _

theorem steps_keccak : Steps B keccak := by
  refine steps.popU64.bind fun offset => steps.popU64.bind fun length => ?_
  refine (steps.chargeGas _).bind fun _ => (steps_chargeWindow _ _).bind fun _ => ?_
  exact (steps_readSlice _ _).bind fun _ => steps.push _

theorem steps_copyFrom (source : Bytes) : Steps B (copyFrom source) := by
  refine steps.popU64.bind fun destOff => steps.popU64.bind fun srcOff => ?_
  refine steps.popU64.bind fun len => (steps.chargeGas _).bind fun _ => ?_
  refine (steps_chargeWindow _ _).bind fun _ => (steps_paddedCopy _ _ _).bind fun _ => ?_
  exact steps_writeSlice _ _

theorem steps_returndatacopy : Steps B returndatacopy := by
  refine steps.popU64.bind fun destOff => steps.popU64.bind fun srcOff => ?_
  refine steps.popU64.bind fun len => (steps.chargeGas _).bind fun _ => ?_
  refine (steps_chargeWindow _ _).bind fun _ => steps_get.bind fun f => ?_
  exact spec_ite (fun _ => spec_fail _) fun _ => steps_writeSlice _ _

theorem steps_mcopy : Steps B mcopy := by
  refine steps.popU64.bind fun destOff => steps.popU64.bind fun srcOff => ?_
  refine steps.popU64.bind fun len => (steps.chargeGas _).bind fun _ => ?_
  exact (steps_chargeWindow _ _).bind fun _ => steps_memoryCopy _ _ _

theorem steps_extcodecopy (h : ∀ addr, B.Allows fun _ => .code addr) : Steps B extcodecopy := by
  refine steps.popAddress.bind fun addr => steps.popU64.bind fun destOff => ?_
  refine steps.popU64.bind fun codeOff => steps.popU64.bind fun len => ?_
  refine (steps.accessAddress _).bind fun _ => (steps.chargeGas _).bind fun _ => ?_
  refine (steps_chargeWindow _ _).bind fun _ => bind (steps_host (h addr)) fun code => ?_
  exact (steps_paddedCopy _ _ _).bind fun _ => steps_writeSlice _ _

theorem steps_sload (h : ∀ key, B.Allows fun env => .storageLoad env.ctx.contract key) :
    Steps B sload := by
  refine steps.pop.bind fun key => spec_bind_env fun env => (steps.accessSlot _ _).bind fun _ => ?_
  exact bind (steps_host ((h key).at env)) fun _ => steps.push _

theorem steps_sstore (h : ∀ key value, (B.restrict (·.ctx.isStatic = false)).Allows fun env =>
    .storageStore env.ctx.contract key value) : Steps B sstore := by
  refine spec_bind_requireNotStatic (steps.pop.bind fun key => steps.pop.bind fun value => ?_)
  refine spec_bind_env fun env => (steps.accessSlot _ _).bind fun _ => ?_
  exact steps_host ((h key value).at env)

theorem steps_tload (h : ∀ key, B.Allows fun env => .transientLoad env.ctx.contract key) :
    Steps B tload := by
  refine steps.pop.bind fun key => spec_bind_env fun env => ?_
  exact bind (steps_host ((h key).at env)) fun _ => steps.push _

theorem steps_tstore (h : ∀ key value, (B.restrict (·.ctx.isStatic = false)).Allows fun env =>
    .transientStore env.ctx.contract key value) : Steps B tstore := by
  refine spec_bind_requireNotStatic (steps.pop.bind fun key => steps.pop.bind fun value => ?_)
  exact spec_bind_env fun env => steps_host ((h key value).at env)

theorem spec_returnWith (status : ExecutionStatus) :
    Spec B (returnWith status) (fun _ => 0) fun _ _ => False := by
  refine steps.popU64.bind fun offset => steps.popU64.bind fun len => ?_
  refine (steps_chargeWindow _ _).bind fun _ => (steps_readSlice _ _).bind fun data => ?_
  exact (steps.setReturnData _).bind fun _ => spec_halt nofun

theorem steps_selfdestruct (h : ∀ beneficiary, (B.restrict (·.ctx.isStatic = false)).Allows
    fun env => .selfdestruct env.ctx.contract beneficiary) : Steps B selfdestruct := by
  refine spec_bind_requireNotStatic (steps.popAddress.bind fun beneficiary => ?_)
  refine spec_bind_env fun env => bind (steps_host ((h beneficiary).at env)) fun _ => ?_
  exact spec_halt nofun

theorem steps_payid (h : ∀ payId, B.Allows fun _ => .resolvePayId payId) : Steps B payid := by
  refine steps.popU64.bind fun ptr => steps.popU64.bind fun len => ?_
  refine (steps_readString _ _).bind fun payId => ?_
  exact bind (steps_host (h payId)) fun _ => steps.pushAddress _

theorem steps_zbxburn (h : ∀ amount, (B.restrict (·.ctx.isStatic = false)).Allows fun env =>
    .burnZbx env.ctx.caller amount) : Steps B zbxburn := by
  refine spec_bind_requireNotStatic (steps.popU128.bind fun amount => ?_)
  refine spec_bind_env fun env => bind (steps_host ((h amount).at env)) fun reply => ?_
  cases reply with
  | ok _ => exact steps_pure _
  | error e => exact spec_fail e

theorem steps_emitLog {n : Nat} (h : ∀ topics data, (B.restrict (·.ctx.isStatic = false)).Allows
    fun env => .emitLog env.ctx.contract topics data) : Steps B (emitLog n) := by
  refine spec_bind_requireNotStatic (steps.popU64.bind fun offset => ?_)
  refine steps.popU64.bind fun length => (steps.chargeGas _).bind fun _ => ?_
  refine (steps_chargeWindow _ _).bind fun _ => (steps.popTopics n).bind fun topics => ?_
  refine (steps_readSlice _ _).bind fun data => spec_bind_env fun env => ?_
  refine bind (steps_modify ?_) fun _ => steps_host ((h topics data).at env)
  exact fun _ => le_rfl

theorem steps_zvmlog (h : ∀ key value, B.Allows fun _ => .emitZvmLog key value) :
    Steps B zvmlog := by
  refine steps.popU64.bind fun keyPtr => steps.popU64.bind fun keyLen => ?_
  refine steps.popU64.bind fun valPtr => steps.popU64.bind fun valLen => ?_
  refine (steps_readString _ _).bind fun key => (steps_readString _ _).bind fun value => ?_
  refine bind (steps_host (h key value)) fun _ => spec_bind_env fun env => ?_
  exact steps_modify fun _ => le_rfl

theorem steps_mload : Steps B mload := by
  refine steps.popU64.bind fun offset => (steps_chargeWindow _ _).bind fun _ => ?_
  exact (steps_load _).bind fun _ => steps.push _

theorem steps_mstore : Steps B mstore := by
  refine steps.popU64.bind fun offset => steps.pop.bind fun word => ?_
  exact (steps_chargeWindow _ _).bind fun _ => steps_store _ _

theorem steps_mstore8 : Steps B mstore8 := by
  refine steps.popU64.bind fun offset => steps.pop.bind fun word => ?_
  exact (steps_chargeWindow _ _).bind fun _ => steps_store8 _ _

end

/-! ## All instructions -/

variable {B : Bounds} {P : Precompiles} {run : FrameRun} {op : Opcode}

theorem steps_execute (hrun : B.Sub run)
    (hask : ∀ env c, B.envs env → Asks env op c → B.asks env ⟨env.ctx.contract, c⟩) :
    Steps B (execute P run op) := by
  have hallows : ∀ c : Env → HostCall, (∀ env, Asks env op (c env)) → B.Allows c :=
    fun c hc env henv => hask env (c env) henv (hc env)
  have hmutates : ∀ c : Env → HostCall, (∀ env, env.ctx.isStatic = false → Asks env op (c env)) →
      (B.restrict (·.ctx.isStatic = false)).Allows c :=
    fun c hc env henv => hask env (c env) henv.1 (hc env henv.2)
  have hreply : ∀ (c : HostCall) {β : Type} {k : c.Reply → FrameM β}, (∀ env, Asks env op c) →
      (∀ reply, Steps B (k reply)) → Steps B (host c >>= k) :=
    fun c _ _ hc hk => bind (steps_host (hallows _ hc)) hk
  have hsub : ∀ sub : SubOp, op = sub.opcode → ∀ env c, B.envs env → sub.Asks env c →
      B.asks env ⟨env.ctx.contract, c⟩ := by
    rintro sub rfl env c henv hc
    exact hask env c henv (.sub hc)
  cases op
  case STOP | INVALID => exact spec_halt nofun
  case JUMP => exact steps.popU64.bind fun _ => steps.jumpTo _
  case JUMPI => exact steps.jumpi
  case JUMPDEST => exact steps_pure _
  case RETURN | REVERT =>
    exact (spec_returnWith _).bind fun _ _ _ _ _ hfalse => hfalse.elim
  -- the others move on to the next instruction
  all_goals refine steps_andNext ?_
  case ADD | MUL | SUB | DIV | SDIV | MOD | SMOD | SIGNEXTEND | AND | OR | XOR | BYTE | SHL | SHR |
      SAR => exact steps.pop.bind fun _ => steps.pop.bind fun _ => steps.push _
  case ADDMOD | MULMOD => exact steps.ternaryOp _
  case EXP => exact steps.exp
  case LT | GT | SLT | SGT | EQ => exact steps.compareOp _
  case ISZERO | NOT => exact steps.pop.bind fun _ => steps.push _
  case KECCAK256 => exact steps_keccak
  case ADDRESS | ORIGIN | CALLER | AASENDER =>
    exact spec_bind_env fun _ => steps.pushAddress _
  case CALLVALUE | CALLDATASIZE | CODESIZE | TIMESTAMP | NUMBER | CHAINID | BASEFEE | BLOBBASEFEE =>
    exact spec_bind_env fun _ => steps.pushNat _
  case CALLDATALOAD => exact steps.calldataload
  case CALLDATACOPY | CODECOPY => exact spec_bind_env fun _ => steps_copyFrom _
  case RETURNDATACOPY => exact steps_returndatacopy
  case MCOPY => exact steps_mcopy
  case RETURNDATASIZE | PC | MSIZE | GAS =>
    exact steps_get.bind fun _ => steps.pushNat _
  -- questions to the host
  case BALANCE =>
    refine steps.queryAccount fun addr => ?_
    exact hreply _ (fun _ => .balance addr) fun _ => steps_pure _
  case EXTCODESIZE =>
    refine steps.queryAccount fun addr => ?_
    exact hreply _ (fun _ => .extcodesize addr) fun _ => steps_pure _
  case EXTCODEHASH =>
    refine steps.queryAccount fun addr => ?_
    exact steps_host (hallows _ fun _ => .extcodehash addr)
  case EXTCODECOPY =>
    exact steps_extcodecopy fun addr => hallows _ fun _ => .extcodecopy addr
  case GASPRICE => exact hreply _ (fun _ => .gasprice) fun _ => steps.pushNat _
  case BLOCKHASH =>
    refine steps.popU64.bind fun block => ?_
    exact hreply _ (fun _ => .blockhash block) fun _ => steps.push _
  case COINBASE => exact hreply _ (fun _ => .coinbase) fun _ => steps.pushAddress _
  case PREVRANDAO => exact hreply _ (fun _ => .prevrandao) fun _ => steps.push _
  case GASLIMIT => exact hreply _ (fun _ => .gaslimit) fun _ => steps.pushNat _
  case SELFBALANCE =>
    refine spec_bind_env fun env => ?_
    refine bind (steps_host ?_) fun _ => steps.pushNat _
    exact (hallows (fun env => .balance env.ctx.contract) fun _ => .selfbalance).at env
  case BLOBHASH =>
    refine steps.popU64.bind fun i => ?_
    exact hreply _ (fun _ => .blobhash i) fun _ => steps.push _
  case PAYID => exact steps_payid fun payId => hallows _ fun _ => .payid payId
  case ZUSDBAL =>
    refine steps.popAddress.bind fun addr => ?_
    exact hreply _ (fun _ => .zusdbal addr) fun _ => steps.pushNat _
  case ZBXPRICE => exact hreply _ (fun _ => .zbxprice) fun _ => steps.pushNat _
  case BLOBFEE => exact hreply _ (fun _ => .blobfee) fun _ => steps.pushNat _
  case PAYIDSET =>
    refine steps.popAddress.bind fun addr => ?_
    exact hreply _ (fun _ => .payidset addr) fun _ => steps.pushBool _
  case ZBXTIME | CHAINVER => exact steps.pushNat _
  -- stack and memory
  case POP => exact steps.pop.bind fun _ => steps_pure _
  case MLOAD => exact steps_mload
  case MSTORE => exact steps_mstore
  case MSTORE8 => exact steps_mstore8
  case PUSH0 => exact steps.push 0
  case PUSH n => exact steps.pushOperand _
  case DUP n => exact steps.dup _
  case SWAP n => exact steps.swap _
  -- storage, logs and value
  case SLOAD => exact steps_sload fun key => hallows _ fun _ => .sload key
  case SSTORE =>
    refine steps_sstore fun key value => ?_
    exact hmutates _ fun _ hstatic => .sstore key value hstatic
  case TLOAD => exact steps_tload fun key => hallows _ fun _ => .tload key
  case TSTORE =>
    refine steps_tstore fun key value => ?_
    exact hmutates _ fun _ hstatic => .tstore key value hstatic
  case LOG n =>
    refine steps_emitLog fun topics data => ?_
    exact hmutates _ fun _ hstatic => .log n topics data hstatic
  case SELFDESTRUCT =>
    refine steps_selfdestruct fun beneficiary => ?_
    exact hmutates _ fun _ hstatic => .selfdestruct beneficiary hstatic
  case ZBXBURN =>
    refine steps_zbxburn fun amount => ?_
    exact hmutates _ fun _ hstatic => .zbxburn amount hstatic
  case ZVMLOG =>
    exact steps_zvmlog fun key value => hallows _ fun _ => .zvmlog key value
  -- sub-frames
  case CREATE => exact steps_doCreate hrun (hsub (.create false) rfl)
  case CREATE2 => exact steps_doCreate hrun (hsub (.create true) rfl)
  case CALL => exact steps_doCall hrun (hsub (.call .call) rfl)
  case CALLCODE => exact steps_doCall hrun (hsub (.call .callCode) rfl)
  case DELEGATECALL => exact steps_doCall hrun (hsub (.call .delegateCall) rfl)
  case STATICCALL => exact steps_doCall hrun (hsub (.call .staticCall) rfl)

def Opcode.isFree : Opcode → Bool
  | .STOP | .RETURN | .REVERT | .INVALID => true
  | _ => false

theorem opcodeGas_pos (h : op.isFree = false) : 0 < opcodeGas op := by
  cases op <;> first | exact Nat.succ_pos _ | exact absurd h nofun

theorem spec_execute_free (h : op.isFree = true) :
    Spec B (execute P run op) (fun _ => 0) fun _ _ => False := by
  cases op
  case STOP | INVALID => exact spec_halt nofun
  case RETURN | REVERT => exact (spec_returnWith _).bind fun _ _ _ _ _ hfalse => hfalse.elim
  all_goals exact absurd h nofun

theorem Spec.dispatch {Q : Prop} (h : Spec B (execute P run op) (fun _ => 0) fun _ _ => Q) :
    Spec B (dispatch P run op) (fun _ => 0) fun _ _ => Q := by
  refine h.bind fun env f flow _ _ hQ => ?_
  cases flow with
  | next | jumped => exact ⟨le_rfl, hQ⟩

end ZbxChain.Zvm

import ZbxChain.Execution.StateView
import ZbxChain.Zvm.Instructions

/-!
# What a failed sub-frame leaves behind

The instructions that start a sub-frame (`CALL` and its variants, `CREATE`, `CREATE2`) and the
state of the host after a sub-frame that does not succeed.
-/

namespace ZbxChain.Zvm

open FrameM ZvmStateAccess ProductionZvmHost Interaction

def Halt.failed : Halt → Bool
  | .stop status => status ≠ .success
  | .error _ => true
  | .panic | .outOfFuel => false

variable {S : Type} [ZvmStateAccess S]

/-- In `env` and `f`, from `host`, the instruction starts the sub-frame `subFrame`, which
begins with the host `begun` and fails with the host `ended`. -/
structure FailedSub (P : Precompiles) (fuel : Nat) (op : SubOp) (env : Env) (f : Frame)
    (host : ProductionZvmHost S) (subEnv : Env) (subFrame : Frame)
    (begun ended : ProductionZvmHost S) : Prop where
  started : ∃ f', run handle (op.start P env f) host =
    (.ok (some (subEnv, subFrame)) f', begun)
  failed : ∃ halt sub, run handle
    (runLoop P fuel subEnv subFrame) begun = ((halt, sub), ended) ∧ halt.failed = true

/-! ## The host after the instruction -/

section

variable {σ : Type} {handle : (q : Request) → σ → q.call.Reply × σ} {env : Env} {s s' : σ}

theorem silent_push (w : H256) : Silent (push w) :=
  silent_of_steps fun _ => steps.push w

theorem silent_finishCall (plan : CallPlan) (result : ZvmResult) (sub : Frame) :
    Silent (finishCall plan result sub) := by
  refine silent_bind (silent_modify _) fun _ => silent_bind (silent_modify _) fun _ => ?_
  exact silent_bind (silent_of_steps fun _ => steps_storeBytes _ _) fun _ => silent_push _

theorem silent_finishCreate {plan : CreatePlan} {result : ZvmResult} (sub : Frame)
    (h : result.status ≠ .success) : Silent (finishCreate plan result sub) := by
  refine silent_bind (silent_modify _) fun _ => ?_
  rw [if_neg h]
  exact silent_bind (silent_modify _) fun _ => silent_push _

theorem runSub_of_failed {run : FrameRun} {subEnv : Env} {subFrame sub : Frame} {halt : Halt}
    (env : Env) (f : Frame)
    (hrun : Interaction.run handle (run subEnv subFrame) s = ((halt, sub), s'))
    (hfail : halt.failed = true) : ∃ result, result.status ≠ .success ∧
      Interaction.run handle (runSub run subEnv subFrame env f) s = (.ok (result, sub) f, s') := by
  unfold runSub
  rw [run_bind, hrun]
  cases halt with
  | stop status =>
    refine ⟨finish subEnv sub status, ?_, rfl⟩
    simpa [Halt.failed, finish] using hfail
  | error e => exact ⟨finish subEnv sub (.zvmError e.display), by simp [finish], rfl⟩
  | panic => cases hfail
  | outOfFuel => cases hfail

theorem run_map_some {α β : Type} {x : FrameM (Option α)} {g : α → β} {f f' : Frame} {b : β}
    (h : run handle ((do return (← x).map g) env f) s = (.ok (some b) f', s')) :
    ∃ a, run handle (x env f) s = (.ok (some a) f', s') ∧ g a = b := by
  cases hr : run handle (x env f) s with
  | mk r s₁ =>
    cases r with
    | ok a f₁ =>
      rw [run_bind_ok hr] at h
      cases a with
      | none => cases h
      | some a =>
        cases h
        exact ⟨a, rfl, rfl⟩
    | error e f₁ =>
      rw [run_bind_error hr] at h
      cases h

end

variable {P : Precompiles} {fuel : Nat} {op : SubOp} {env subEnv : Env} {f subFrame : Frame}
  {host begun ended : ProductionZvmHost S}

theorem run_of_failed (h : FailedSub P fuel op env f host subEnv subFrame begun ended) :
    (run handle (op.exec P (runLoop P fuel) env f) host).2 = ended := by
  obtain ⟨f', hstart⟩ := h.started
  obtain ⟨halt, sub, hrun, hfail⟩ := h.failed
  cases op with
  | call kind =>
    obtain ⟨plan, hplan, heq⟩ := run_map_some hstart
    cases heq
    obtain ⟨result, _, hsub⟩ := runSub_of_failed env f' hrun hfail
    show (run _ (doCall P (runLoop P fuel) kind env f) host).2 = ended
    unfold doCall
    rw [run_bind_ok hplan]
    rw [run_bind_ok hsub]
    exact run_of_silent (silent_finishCall _ _ _) _
  | create withSalt =>
    obtain ⟨plan, hplan, heq⟩ := run_map_some hstart
    cases heq
    obtain ⟨result, hstatus, hsub⟩ := runSub_of_failed env f' hrun hfail
    show (run _ (doCreate (runLoop P fuel) withSalt env f) host).2 = ended
    unfold doCreate
    rw [run_bind_ok hplan]
    rw [run_bind_ok hsub]
    exact run_of_silent (silent_finishCreate _ hstatus) _

/-! ## The host at the start of the sub-frame -/

theorem post_refuseCall {Q : Option CallPlan → ProductionZvmHost S → Prop} (h : Q none host) :
    Post handle env host refuseCall Q := by
  refine post_bind_silent (silent_modify _) fun _ => post_bind_silent (silent_push _) fun _ => ?_
  exact post_pure h

theorem post_refuseCreate {Q : Option CreatePlan → ProductionZvmHost S → Prop} (h : Q none host) :
    Post handle env host refuseCreate Q :=
  post_bind_silent (silent_push _) fun _ => post_pure h

section

variable {β : Type} {addr : Address} {Q : β → ProductionZvmHost S → Prop}

theorem post_bind_balance {k : Nat → FrameM β}
    (h : Post handle env host (k (host.balance addr)) Q) :
    Post handle env host (Host.balance addr >>= k) Q :=
  post_bind_host (c := .balance addr) h

theorem post_bind_code {k : Bytes → FrameM β}
    (h : Post handle env host (k (getCodeFor host.state addr)) Q) :
    Post handle env host (Host.code addr >>= k) Q :=
  post_bind_host (c := .code addr) h

theorem post_bind_isCallAllowed {k : Bool → FrameM β}
    (h : Post handle env host (k (host.isCallAllowed addr)) Q) :
    Post handle env host (Host.isCallAllowed addr >>= k) Q :=
  post_bind_host (c := .isCallAllowed addr) h

theorem post_bind_nonce {k : Nat → FrameM β}
    (h : Post handle env host (k (getAccount host.state addr).nonce.toNat) Q) :
    Post handle env host (Host.nonce addr >>= k) Q :=
  post_bind_host (c := .nonce addr) h

theorem post_bind_incNonce {k : Nat → FrameM β}
    (h : Post handle env (host.incNonce addr).2 (k (host.incNonce addr).1) Q) :
    Post handle env host (Host.incNonce addr >>= k) Q :=
  post_bind_host (c := .incNonce addr) h

end

theorem post_bind_transfer {β : Type} {src dst : Address} {amount : Nat} {k : Unit → FrameM β}
    {Q : β → ProductionZvmHost S → Prop}
    (h : Post handle env (host.transfer src dst amount).2 (k ()) Q) :
    Post handle env host (Host.transfer src dst amount >>= k) Q := by
  refine post_bind (Q := fun _ host' => host' = (host.transfer src dst amount).2) ?_ ?_
  · refine post_bind_host (c := .transfer src dst amount) ?_
    cases (handle ⟨env.ctx.contract, .transfer src dst amount⟩ host).1 with
    | ok u => exact post_pure rfl
    | error e => exact post_halt _
  · rintro _ _ rfl
    exact h

def callHost (kind : ZvmCallKind) (contract target : Address) (value : Nat)
    (host : ProductionZvmHost S) : ProductionZvmHost S :=
  if kind = .call ∧ 0 < value then (host.transfer contract target value).2 else host

theorem sendValue_post (kind : ZvmCallKind) (target : Address) (value : Nat) :
    Post handle env host (sendValue kind target value) fun sent host' =>
      sent = true → (kind = .call → value ≤ host.balance env.ctx.contract) ∧
        host' = callHost kind env.ctx.contract target value host := by
  refine post_bind_env (post_ite (fun hvalue => ?_) fun hvalue => post_pure fun _ => ?_)
  · refine post_bind_balance ?_
    refine post_ite (fun _ => post_pure nofun) fun hle => ?_
    refine post_bind_transfer (post_pure fun _ => ⟨fun _ => ?_, (if_pos hvalue).symm⟩)
    exact Nat.le_of_not_lt hle
  refine ⟨fun hkind => ?_, (if_neg hvalue).symm⟩
  have hzero : value = 0 := Nat.eq_zero_of_not_pos fun hpos => hvalue ⟨hkind, hpos⟩
  rw [hzero]
  exact Nat.zero_le _

theorem planCall_post {kind : ZvmCallKind} {target : Address} {code calldata : Bytes}
    {value gasReq retOff retLen : Nat} : Post handle env host
      (planCall kind target code calldata value gasReq retOff retLen) fun r host' =>
        host' = host ∧ ∀ plan, r = some plan → ∃ forwarded,
          plan.env.ctx = callContext env.ctx kind target code calldata value forwarded := by
  intro f r f' host' hrun
  cases hrun
  refine ⟨rfl, ?_⟩
  rintro plan ⟨⟩
  exact ⟨_, rfl⟩

theorem prepareCall_post (P : Precompiles) (kind : ZvmCallKind) :
    Post handle env host (prepareCall P kind) fun r begun =>
      ∀ plan, r = some plan → ∃ target value,
        (kind = .call → plan.env.ctx.contract = target ∧ plan.env.ctx.value = value ∧
          value ≤ host.balance env.ctx.contract) ∧
        begun = callHost kind env.ctx.contract target value host := by
  refine post_bind_steps (fun _ => steps.popU64) fun gasReq => ?_
  refine post_bind_steps (fun _ => steps.popAddress) fun target => ?_
  refine post_bind_steps (fun _ => steps_popValue kind) fun value => ?_
  refine post_bind_steps (fun _ => steps_checkStaticValue kind value) fun _ => ?_
  refine post_bind_steps (fun _ => steps.popU64) fun argsOff => ?_
  refine post_bind_steps (fun _ => steps.popU64) fun argsLen => ?_
  refine post_bind_steps (fun _ => steps.popU64) fun retOff => ?_
  refine post_bind_steps (fun _ => steps.popU64) fun retLen => ?_
  refine post_bind_steps (fun _ => steps.accessAddress target) fun _ => ?_
  refine post_bind_steps (fun _ => steps_chargeWindow _ _) fun _ => ?_
  refine post_bind_steps (fun _ => steps_chargeWindow _ _) fun _ => ?_
  have hrefuse : ∀ {Q : CallPlan → ProductionZvmHost S → Prop} {h : ProductionZvmHost S},
      Post handle env h refuseCall fun r begun => ∀ plan, r = some plan → Q plan begun :=
    post_refuseCall nofun
  refine post_bind_env (post_ite (fun _ => hrefuse) fun _ => ?_)
  refine post_bind_steps (fun _ => steps_readSlice _ _) fun calldata => ?_
  refine post_ite (fun _ => ?_) fun _ => ?_
  · refine post_bind (Q := fun _ _ => True) (fun _ _ _ _ _ => trivial) fun _ _ _ => ?_
    exact post_pure nofun
  refine post_bind_isCallAllowed (post_ite (fun _ => hrefuse) fun _ => post_bind_code ?_)
  refine post_bind (sendValue_post kind target value) fun sent host' hsent => ?_
  refine post_ite (fun _ => hrefuse) fun htrue => ?_
  obtain ⟨hbal, rfl⟩ := hsent (by simpa using htrue)
  intro f r f' begun hrun plan hplan
  obtain ⟨rfl, hctx⟩ := planCall_post f r f' begun hrun
  obtain ⟨forwarded, hctx⟩ := hctx plan hplan
  refine ⟨target, value, fun hkind => ?_, rfl⟩
  rw [hctx, hkind]
  exact ⟨rfl, rfl, hbal hkind⟩

/-! ## Creations -/

section

variable {host begun : ProductionZvmHost StateView}

theorem openAccount_post (creator newAddr : Address) (initcode : Bytes) (value : Nat) :
    Post handle env host (openAccount creator newAddr initcode value)
      fun r begun => ∀ plan, r = some plan → plan.env.ctx.contract = newAddr ∧
        0 < (begun.state.getAccount newAddr).nonce.toNat := by
  refine post_bind (Q := fun _ _ => True) (fun _ _ _ _ _ => trivial) fun _ endowed _ => ?_
  refine post_bind_incNonce ?_
  intro f r f' begun hrun
  cases hrun
  rintro plan ⟨⟩
  exact ⟨rfl, endowed.nonce_incNonce_pos newAddr⟩

theorem claimAddress_post (creator : Address) (salt : Option H256) (initcode : Bytes)
    (value : Nat) :
    Post handle env host (claimAddress creator salt initcode value)
      fun r begun => ∀ plan, r = some plan →
        let newAddr := plan.env.ctx.contract
        newAddr ≠ creator ∧ (host.state.getAccount newAddr).nonce.toNat = 0 ∧
          0 < (begun.state.getAccount newAddr).nonce.toNat := by
  refine post_bind_nonce (post_bind_incNonce (post_bind_code ?_))
  refine post_ite (fun _ => post_refuseCreate nofun) fun _ => ?_
  refine post_bind_nonce ?_
  refine post_ite (fun _ => post_refuseCreate nofun) fun hfresh => ?_
  intro f r f' begun hrun plan hplan
  obtain ⟨hcontract, hnonce⟩ := openAccount_post _ _ _ _ f r f' begun hrun plan hplan
  rw [← hcontract] at hfresh hnonce
  have hne : plan.env.ctx.contract ≠ creator := by
    intro heq
    rw [heq] at hfresh
    exact hfresh (host.nonce_incNonce_pos creator)
  refine ⟨hne, Nat.eq_zero_of_not_pos fun hpos => hfresh ?_, hnonce⟩
  show 0 < ((host.incNonce creator).2.state.getAccount _).nonce.toNat
  rw [host.getAccount_incNonce_ne hne]
  exact hpos

theorem prepareCreate_post (withSalt : Bool) :
    Post handle env host (prepareCreate withSalt) fun r begun =>
      ∀ plan, r = some plan →
        let newAddr := plan.env.ctx.contract
        newAddr ≠ env.ctx.contract ∧ (host.state.getAccount newAddr).nonce.toNat = 0 ∧
          0 < (begun.state.getAccount newAddr).nonce.toNat := by
  have hrefuse : ∀ {Q : CreatePlan → ProductionZvmHost StateView → Prop},
      Post handle env host refuseCreate
        fun r begun => ∀ plan, r = some plan → Q plan begun :=
    post_refuseCreate nofun
  refine post_bind_steps (fun _ => steps.requireNotStatic) fun _ => ?_
  refine post_bind_steps (fun _ => steps.popU128) fun value => ?_
  refine post_bind_steps (fun _ => steps.popU64) fun off => ?_
  refine post_bind_steps (fun _ => steps.popU64) fun len => ?_
  refine post_bind_steps (fun _ => steps_popSalt withSalt) fun salt => ?_
  refine post_ite (fun _ => post_bind_silent (silent_modify _) fun _ => hrefuse) fun _ => ?_
  refine post_bind_steps (fun _ => steps_chargeInitcode withSalt off len) ?_
  refine fun _ => post_bind_env ?_
  refine post_ite (fun _ => post_bind_silent (silent_modify _) fun _ => hrefuse) fun _ => ?_
  refine post_bind_balance (post_ite (fun _ => hrefuse) fun _ => ?_)
  refine post_bind_steps (fun _ => steps_readSlice _ _) fun initcode => ?_
  exact claimAddress_post _ salt initcode value

end

/-! ## Rollback -/

/-- What the host shows is what it was, except for the nonce of `creator`. -/
structure RolledBack (creator : Address) (host host' : ProductionZvmHost StateView) : Prop where
  storage : ∀ addr key, host'.state.getStorage addr key = host.state.getStorage addr key
  transient : ∀ addr key, (host'.transient.lookup (addr, key)).getD 0 =
    (host.transient.lookup (addr, key)).getD 0
  balance : ∀ addr, host'.balance addr = host.balance addr
  code : ∀ addr, host'.state.getCode addr = host.state.getCode addr
  pendingDestructs : host'.pendingDestructs = host.pendingDestructs
  logs : host'.state.diffs.logs = host.state.diffs.logs
  nonce : ∀ addr, addr ≠ creator →
    (host'.state.getAccount addr).nonce = (host.state.getAccount addr).nonce

variable {host begun ended : ProductionZvmHost StateView} {creator : Address}

theorem RolledBack.refl : RolledBack creator host host :=
  ⟨fun _ _ => rfl, fun _ _ => rfl, fun _ => rfl, fun _ => rfl, rfl, rfl, fun _ _ => rfl⟩

theorem rolledBack_transfer_self {src : Address} {amount : Nat} (h : amount ≤ host.balance src) :
    RolledBack creator host (host.transfer src src amount).2 := by
  have hstores := host.sameStores_transfer src src amount
  have hacct := host.getAccount_transfer src src amount
  have hrest : (host.transfer src src amount).2.transient = host.transient ∧
      (host.transfer src src amount).2.pendingDestructs = host.pendingDestructs := by
    rw [transfer_of_le h]
    exact ⟨rfl, rfl⟩
  refine ⟨hstores.getStorage_eq, fun addr key => by rw [hrest.1],
    balance_transfer_self h, fun addr => hstores.getCode_eq ?_, hrest.2,
    hstores.logs, fun addr _ => ?_⟩
  all_goals
    obtain ⟨bal, hbal⟩ := hacct addr
    rw [hbal]

def Quiet (P : Precompiles) (fuel : Nat) (subEnv : Env) (subFrame : Frame)
    (begun : ProductionZvmHost StateView) : Prop :=
  ∀ q ∈ requests handle (runLoop P fuel subEnv subFrame) begun,
    q.call.writes = false

theorem Quiet.ended_eq (hquiet : Quiet P fuel subEnv subFrame begun)
    (h : FailedSub P fuel op env f host subEnv subFrame begun ended) : ended = begun := by
  obtain ⟨halt, sub, hrun, _⟩ := h.failed
  have heq : (run handle (runLoop P fuel subEnv subFrame) begun).2 =
      begun := run_eq_of_readOnly
    fun q hq host => answer_of_not_writes (hquiet q hq) host
  rw [hrun] at heq
  exact heq

theorem not_rolledBack_create {withSalt : Bool}
    (h : FailedSub P fuel (.create withSalt) env f host subEnv subFrame begun ended) :
    ¬ RolledBack env.ctx.contract host ended := by
  intro hback
  obtain ⟨f', hstart⟩ := h.started
  obtain ⟨plan, hplan, heq⟩ := run_map_some hstart
  cases heq
  obtain ⟨hne, hzero, hpos⟩ := prepareCreate_post withSalt f _ f' begun hplan plan rfl
  obtain ⟨halt, sub, hrun, _⟩ := h.failed
  have hle := (begun.run_writes (runLoop P fuel plan.env plan.frame)).nonce_le plan.env.ctx.contract
  rw [hrun] at hle
  have hsame := hback.nonce plan.env.ctx.contract hne
  rw [hsame, UInt64.le_iff_toNat_le] at hle
  omega

def MovesValue (kind : ZvmCallKind) (env subEnv : Env) : Prop :=
  kind = .call ∧ 0 < subEnv.ctx.value ∧ subEnv.ctx.contract ≠ env.ctx.contract

theorem rolledBack_call_iff {kind : ZvmCallKind}
    (h : FailedSub P fuel (.call kind) env f host subEnv subFrame begun ended) :
    RolledBack env.ctx.contract host begun ↔ ¬ MovesValue kind env subEnv := by
  obtain ⟨f', hstart⟩ := h.started
  obtain ⟨plan, hplan, heq⟩ := run_map_some hstart
  cases heq
  obtain ⟨target, value, hcall, rfl⟩ := prepareCall_post P kind f _ f' begun hplan plan rfl
  unfold callHost
  by_cases hvalue : kind = .call ∧ 0 < value
  · rw [if_pos hvalue]
    obtain ⟨rfl, rfl, hle⟩ := hcall hvalue.1
    constructor
    · rintro hback ⟨_, _, hne⟩
      have hbal := hback.balance env.ctx.contract
      rw [balance_transfer_src (Ne.symm hne) hle] at hbal
      omega
    intro hstay
    have hself : plan.env.ctx.contract = env.ctx.contract :=
      Decidable.not_not.mp fun hne => hstay ⟨hvalue.1, hvalue.2, hne⟩
    rw [hself]
    exact rolledBack_transfer_self hle
  · rw [if_neg hvalue]
    refine iff_of_true .refl ?_
    rintro ⟨hkind, hpos, _⟩
    obtain ⟨_, rfl, _⟩ := hcall hkind
    exact hvalue ⟨hkind, hpos⟩

/-- After a failed sub-frame the host is rolled back never for a creation, and for a call
whose sub-frame wrote nothing exactly when no value went to another account. -/
theorem failed_subframe_rolledBack
    (h : FailedSub P fuel op env f host subEnv subFrame begun ended) :
    let after := (run handle
      (op.exec P (runLoop P fuel) env f) host).2
    (∀ withSalt, op = .create withSalt → ¬ RolledBack env.ctx.contract host after) ∧
      ∀ kind, op = .call kind → Quiet P fuel subEnv subFrame begun →
        (RolledBack env.ctx.contract host after ↔ ¬ MovesValue kind env subEnv) := by
  rw [run_of_failed h]
  constructor
  · rintro withSalt rfl
    exact not_rolledBack_create h
  rintro kind rfl hquiet
  rw [hquiet.ended_eq h]
  exact rolledBack_call_iff h

/-! ## Runs of an instruction -/

/-- The sub-frame that the instruction starts: how it ends, and the hosts at its two ends. -/
def SubOp.outcome (P : Precompiles) (fuel : Nat) (op : SubOp) (env : Env) (f : Frame)
    (host : ProductionZvmHost StateView) :
    Option (Halt × Env × Frame × ProductionZvmHost StateView × ProductionZvmHost StateView) :=
  match run handle (op.start P env f) host with
  | (.ok (some (subEnv, subFrame)) _, begun) =>
    match run handle (runLoop P fuel subEnv subFrame) begun with
    | ((halt, _), ended) => some (halt, subEnv, subFrame, begun, ended)
  | _ => none

theorem exists_failedSub {check : Env → Frame → ProductionZvmHost StateView → Prop}
    (h : ∃ o ∈ op.outcome P fuel env f host, o.1.failed ∧ check o.2.1 o.2.2.1 o.2.2.2.1) :
    ∃ subEnv subFrame begun ended, FailedSub P fuel op env f host subEnv subFrame begun ended ∧
        check subEnv subFrame begun := by
  obtain ⟨o, ho, hfail, hcheck⟩ := h
  unfold SubOp.outcome at ho
  split at ho
  · rename_i subEnv subFrame f' begun hstart
    cases hrun : run handle (runLoop P fuel subEnv subFrame) begun with
    | mk r ended =>
      rw [hrun] at ho
      cases ho
      exact ⟨subEnv, subFrame, begun, ended, ⟨⟨f', hstart⟩, ⟨r.1, r.2, hrun, hfail⟩⟩, hcheck⟩
  · cases ho

def callingEnv : Env := Env.new
  { bytecode := [0xf1], calldata := [], caller := 0xa1, contract := 0xc1, value := 0,
    gasLimit := 100000, blockNumber := 1, blockTimestamp := 0, baseFee := 0, blobBaseFee := 1,
    chainId := 1, isStatic := false, aaSender := none, origin := 0xa1 } 0

def callingFrame : Frame :=
  { Frame.new 100000 [] [] with stack := [50000, 0xc2, 0, 0, 0, 0, 0] }

def calleeHost (code : Bytes) : ProductionZvmHost StateView :=
  .new ((StateView.new.seedCode (keccak256 code) code).seedAccount 0xc2
    { AccountState.default with codeHash := keccak256 code, vm := .zvm })
    ⟨0, 30000000, 0, 0, []⟩

/-- A callee that fails at once leaves the host as it was. -/
theorem invalid_rolledBack :
    ∃ subEnv subFrame begun ended, FailedSub noPrecompiles 100 (.call .call) callingEnv
      callingFrame (calleeHost [0xfe]) subEnv subFrame begun ended ∧
      RolledBack 0xc1 (calleeHost [0xfe]) (run handle
        ((SubOp.call .call).exec noPrecompiles (runLoop noPrecompiles 100) callingEnv callingFrame)
        (calleeHost [0xfe])).2 := by
  obtain ⟨subEnv, subFrame, begun, ended, h, hvalue, hquiet⟩ : ∃ subEnv subFrame begun ended,
      FailedSub noPrecompiles 100 (.call .call) callingEnv callingFrame (calleeHost [0xfe])
        subEnv subFrame begun ended ∧ subEnv.ctx.value = 0 ∧ ∀ q ∈ requests handle
          (runLoop noPrecompiles 100 subEnv subFrame) begun, q.call.writes = false :=
    exists_failedSub (by decide +kernel)
  refine ⟨subEnv, subFrame, begun, ended, h, ?_⟩
  refine ((failed_subframe_rolledBack h).2 .call rfl hquiet).mpr ?_
  rintro ⟨_, hpos, _⟩
  exact Nat.ne_of_gt hpos hvalue

/-- `PUSH1 7 PUSH1 1 SSTORE INVALID`. -/
def storeThenFail : Bytes := [0x60, 7, 0x60, 1, 0x55, 0xfe]

/-- The callee fails after a write to its storage, and the write stays. -/
theorem storeThenFail_not_rolledBack :
    (∃ subEnv subFrame begun ended, FailedSub noPrecompiles 100 (.call .call) callingEnv
      callingFrame (calleeHost storeThenFail) subEnv subFrame begun ended) ∧
    (calleeHost storeThenFail).state.getStorage 0xc2 1 = 0 ∧
    (run handle ((SubOp.call .call).exec noPrecompiles
      (runLoop noPrecompiles 100) callingEnv callingFrame)
      (calleeHost storeThenFail)).2.state.getStorage 0xc2 1 = 7 := by
  refine ⟨?_, by decide +kernel, by decide +kernel⟩
  obtain ⟨subEnv, subFrame, begun, ended, h, _⟩ : ∃ subEnv subFrame begun ended,
      FailedSub noPrecompiles 100 (.call .call) callingEnv callingFrame (calleeHost storeThenFail)
        subEnv subFrame begun ended ∧ True := exists_failedSub (by decide +kernel)
  exact ⟨subEnv, subFrame, begun, ended, h⟩

end ZbxChain.Zvm

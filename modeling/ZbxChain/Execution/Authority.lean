import ZbxChain.Execution.SubFrames
import ZbxChain.Zvm.Gas
import ZbxChain.Zvm.Trace

/-!
# What a tree of frames may change

Results about all frames that a frame starts, at any depth.
-/

namespace ZbxChain

open Zvm Interaction ProductionZvmHost

/-! ## Static frames -/

section

variable {env subEnv : Env} {subFrame : Frame}

theorem Asks.writes_eq_false {op : Opcode} {c : HostCall} (h : Asks env op c)
    (hstatic : env.ctx.isStatic = true) : c.writes = false := by
  have hnot : ¬ env.ctx.isStatic = false := by simp [hstatic]
  cases h with
  | sstore _ _ h | tstore _ _ h | log _ _ _ h | selfdestruct _ h | zbxburn _ h =>
    exact absurd h hnot
  | sub h =>
    cases h with
    | transfer _ _ h | create _ h _ => exact absurd h hnot
    | _ => rfl
  | _ => rfl

theorem Starts.isStatic {op : SubOp} (h : Starts env op subEnv subFrame)
    (hstatic : env.ctx.isStatic = true) : subEnv.ctx.isStatic = true := by
  cases h with
  | call kind _ _ _ _ _ _ _ _ =>
    show (env.ctx.isStatic || decide (kind = .staticCall)) = true
    rw [hstatic, Bool.true_or]
  | create _ _ _ _ _ _ _ _ h => exact absurd h (by simp [hstatic])

def readOnly : Bounds where
  envs env := env.ctx.isStatic = true
  gas := 0
  asks _ q := q.call.writes = false
  mayRunOut := True

theorem readOnly_closed : readOnly.Closed where
  own _ _ _ hstatic hasks := Asks.writes_eq_false hasks hstatic
  envs _ _ _ _ hstatic hstarts := Starts.isStatic hstarts hstatic
  asks _ _ _ _ _ _ _ hq := hq

end

/-- A static frame and the frames below it leave the host as it is: no request that they
make writes storage, transient storage, balances, nonces, code, logs or the queue of
self-destructs. -/
theorem static_frame_isolated {S : Type} [ZvmStateAccess S] (P : Precompiles) (fuel : Nat)
    {env : Env} (hstatic : env.ctx.isStatic = true) (f : Frame) (host : ProductionZvmHost S) :
    (∀ q ∈ requests handle (runLoop P fuel env f) host, q.call.writes = false) ∧
    (run handle (runLoop P fuel env f) host).2 = host := by
  have hran : (runLoop P fuel env f).Ensures (fun q => q.call.writes = false) _ :=
    ran_runLoop readOnly_closed hstatic (.inr trivial)
  have hreads : ∀ q ∈ requests handle (runLoop P fuel env f) host,
      q.call.writes = false := hran.requests host
  refine ⟨hreads, run_eq_of_readOnly fun q hq s => ?_⟩
  exact answer_of_not_writes (hreads q hq) s

/-- A static frame of `0xc1` in front of a `CALL` of `0xc2`. -/
def staticEnv : Env := { callingEnv with ctx := { callingEnv.ctx with isStatic := true } }

/-- The callee of a static frame cannot store. -/
theorem static_call_isolated : staticEnv.ctx.isStatic = true ∧
      (run handle (runLoop noPrecompiles 100 staticEnv callingFrame)
        (calleeHost storeThenFail)).2 = calleeHost storeThenFail :=
  ⟨rfl, (static_frame_isolated noPrecompiles 100 rfl callingFrame (calleeHost storeThenFail)).2⟩

/-! ## Balances -/

/-- The requests that can lower the balance of `addr`. -/
inductive Debits (addr : Address) : HostCall → Prop
  | transfer (dst : Address) (amount : Nat) : Debits addr (.transfer addr dst amount)
  | burnZbx (amount : Nat) : Debits addr (.burnZbx addr amount)
  | selfdestruct (beneficiary : Address) : Debits addr (.selfdestruct addr beneficiary)

namespace ProductionZvmHost

open ZvmStateAccess StateView

variable {host : ProductionZvmHost StateView} {addr : Address}

theorem balanceOf_setAccount {view : StateView} {other : Address} {state : AccountState}
    (h : state.balance = (view.getAccount other).balance) :
    balanceOf (view.setAccount other state) addr = balanceOf view addr := by
  show ((view.setAccount other state).getAccount addr).balanceU128 = (view.getAccount addr).balanceU128
  by_cases haddr : addr = other
  · subst haddr
    rw [getAccount_setAccount_self]
    unfold AccountState.balanceU128
    rw [guardAccount_balance, h]
  · rw [getAccount_setAccount_ne state haddr]

theorem le_balanceOf_credit (view : StateView) (dst : Address) (amount : Nat) :
    balanceOf view addr ≤ balanceOf (credit view dst amount) addr := by
  have hlt : balanceOf view dst < 2 ^ 128 := AccountState.balanceU128_lt _
  have hsum : satAddU128 (balanceOf view dst) amount < 2 ^ 128 := by
    unfold satAddU128
    omega
  unfold credit
  by_cases haddr : addr = dst
  · subst haddr
    rw [balanceOf_setBalance_self _ _ hsum]
    unfold satAddU128
    omega
  · rw [balanceOf_setBalance_ne _ haddr]

theorem le_balance_transfer {src dst : Address} {amount : Nat} (h : addr ≠ src) :
    host.balance addr ≤ (host.transfer src dst amount).2.balance addr := by
  by_cases hlt : host.balance src < amount
  · rw [transfer_of_lt hlt]
  rw [transfer_of_le (Nat.le_of_not_lt hlt)]
  refine Nat.le_trans (Nat.le_of_eq ?_) (le_balanceOf_credit _ dst amount)
  exact (balanceOf_setBalance_ne _ h).symm

theorem le_balance_burnZbx {src : Address} {amount : Nat} (h : addr ≠ src) :
    host.balance addr ≤ (host.burnZbx src amount).2.balance addr := by
  by_cases hlt : host.balance src < amount
  · rw [burnZbx_of_lt hlt]
  · rw [burnZbx_of_le (Nat.le_of_not_lt hlt)]
    exact Nat.le_of_eq (balanceOf_setBalance_ne _ h).symm

theorem le_balance_selfdestruct {contract beneficiary : Address} (h : addr ≠ contract) :
    host.balance addr ≤ (host.selfdestruct contract beneficiary).balance addr := by
  unfold selfdestruct
  dsimp only
  split
  · exact le_balance_transfer h
  · exact le_rfl

theorem debits_of_balance_lt {c : HostCall}
    (h : (answer c host).2.balance addr < host.balance addr) : Debits addr c := by
  by_cases hc : c.writes = false
  · rw [answer_of_not_writes hc] at h
    exact absurd h (Nat.lt_irrefl _)
  cases c <;> first | exact absurd rfl hc | skip
  case storageStore | transientStore | markCreatedThisTx | emitLog =>
    exact absurd h (Nat.lt_irrefl _)
  case transfer src dst amount =>
    by_cases haddr : addr = src
    · exact haddr ▸ .transfer dst amount
    · exact absurd h (Nat.not_lt.mpr (le_balance_transfer haddr))
  case incNonce other =>
    have hsame : (answer (.incNonce other) host).2.balance addr = host.balance addr :=
      balanceOf_setAccount rfl
    exact absurd h (Nat.not_lt.mpr hsame.ge)
  case setCode other code =>
    have hsame : (answer (.setCode other code) host).2.balance addr = host.balance addr :=
      balanceOf_setAccount rfl
    exact absurd h (Nat.not_lt.mpr hsame.ge)
  case burnZbx src amount =>
    by_cases haddr : addr = src
    · exact haddr ▸ .burnZbx amount
    · exact absurd h (Nat.not_lt.mpr (le_balance_burnZbx haddr))
  case selfdestruct contract beneficiary =>
    by_cases haddr : addr = contract
    · exact haddr ▸ .selfdestruct beneficiary
    · exact absurd h (Nat.not_lt.mpr (le_balance_selfdestruct haddr))

end ProductionZvmHost

def Zvm.Opcode.sendsValue : Opcode → Bool
  | .CALL | .CREATE | .CREATE2 | .SELFDESTRUCT => true
  | _ => false

def MayDebit (env : Env) (op : Opcode) (addr : Address) : Prop :=
  (op.sendsValue = true ∧ env.ctx.contract = addr) ∨ (op = .ZBXBURN ∧ env.ctx.caller = addr)

theorem mayDebit_of_asks {env : Env} {op : Opcode} {c : HostCall} {addr : Address}
    (h : Asks env op c) (hc : Debits addr c) : MayDebit env op addr := by
  cases h with
  | selfdestruct beneficiary _ =>
    cases hc
    exact .inl ⟨rfl, rfl⟩
  | zbxburn amount _ =>
    cases hc
    exact .inr ⟨rfl, rfl⟩
  | sub h =>
    cases h with
    | transfer target value _ =>
      cases hc
      exact .inl ⟨rfl, rfl⟩
    | create withSalt _ hcreate =>
      cases hcreate with
      | transfer newAddr value =>
        cases hc
        cases withSalt <;> exact .inl ⟨rfl, rfl⟩
      | _ => cases hc
    | _ => cases hc
  | _ => cases hc

theorem not_debits_of_deploys {c : HostCall} {addr : Address} (h : Deploys c) :
    ¬ Debits addr c := by
  cases h <;> exact nofun

/-- The only ways in which a balance goes down in a tree of frames. When the host has
served `pre` and the request `q` lowers the balance of `addr`, then `q` is made by the
instruction of a frame of the tree: a `CALL`, `CREATE`, `CREATE2` or `SELFDESTRUCT` of a
frame whose contract is `addr`, or a `ZBXBURN` of a frame whose caller is `addr`. -/
theorem balance_authority {P : Precompiles} {fuel : Nat} {env : Env} {f : Frame}
    {host : ProductionZvmHost StateView} {pre : List Request} {q : Request} {addr : Address}
    (hmakes : Makes handle (runLoop P fuel env f) host pre q)
    (hless : (serve handle host (pre ++ [q])).balance addr < (serve handle host pre).balance addr) :
    ∃ c op before own, Point.Reaches P handle ⟨fuel, env, f, host⟩ c ∧
      pre = before ++ own ∧ c.host = serve handle host before ∧
      c.Performs P handle op own q ∧ q.contract = c.env.ctx.contract ∧ MayDebit c.env op addr := by
  rw [serve_append] at hless
  have hdebits : Debits addr q.call := debits_of_balance_lt hless
  rcases makes_runLoop hmakes with ⟨c, op, before, own, hreach, hpre, hhost, hown⟩ | hdeploys
  · obtain ⟨hcontract, hasks⟩ := hown.asks
    exact ⟨c, op, before, own, hreach, hpre, hhost, hown, hcontract, mayDebit_of_asks hasks hdebits⟩
  · exact absurd hdebits (not_debits_of_deploys hdeploys)

/-- `PUSH1 5 ZBXBURN` at `0xc1`, called by `0xa1`. -/
def burningEnv : Env := Env.new { callingEnv.ctx with bytecode := [0x60, 5, 0xc8] } 0

def callerHost : ProductionZvmHost StateView :=
  .new (StateView.new.seedAccount 0xa1 { AccountState.default with balance := 10 })
    ⟨0, 30000000, 0, 0, []⟩

def burnFive : Request := ⟨0xc1, .burnZbx 0xa1 5⟩

theorem makes_burnFive : Makes handle (runLoop noPrecompiles 10 burningEnv (Frame.new 1000 [] []))
      callerHost [] burnFive := ⟨[], rfl⟩

/-- The burn lowers the balance of the caller. -/
theorem burn_authority : ∃ c op, Point.Reaches noPrecompiles handle
      ⟨10, burningEnv, Frame.new 1000 [] [], callerHost⟩ c ∧ MayDebit c.env op 0xa1 := by
  have hless : (serve handle callerHost ([] ++ [burnFive])).balance 0xa1 <
      (serve handle callerHost []).balance 0xa1 := by decide +kernel
  obtain ⟨c, op, before, own, hreach, _, _, _, _, hdebit⟩ := balance_authority makes_burnFive hless
  exact ⟨c, op, hreach, hdebit⟩

/-- The code of `0xc1` takes 5 of the 10 that its caller `0xa1` holds, and no frame of the
run is one of `0xa1`. -/
theorem burn_debits_caller : callerHost.balance 0xa1 = 10 ∧
    (run handle (runLoop noPrecompiles 10 burningEnv (Frame.new 1000 [] []))
      callerHost).2.balance 0xa1 = 5 ∧ ∀ q ∈ requests handle
      (runLoop noPrecompiles 10 burningEnv (Frame.new 1000 [] [])) callerHost,
      q.contract ≠ 0xa1 := by
  decide +kernel

/-! ## The storage that a frame writes -/

inductive Stores (addr : Address) : HostCall → Prop
  | storage (key value : H256) : Stores addr (.storageStore addr key value)
  | transient (key value : H256) : Stores addr (.transientStore addr key value)

/-- The instructions whose sub-frame has an address of its own. `CALLCODE` is one of them. -/
def changesContext : List Opcode := [.CALL, .CALLCODE, .STATICCALL, .CREATE, .CREATE2]

section

variable {σ : Type} {P : Precompiles} {handle : (q : Request) → σ → q.call.Reply × σ}

theorem step_changes_context {c d : Point σ} (h : c.Step P handle d)
    (hne : d.env.ctx.contract ≠ c.env.ctx.contract) :
    ∃ op ∈ changesContext, fetch c.env c.frame = some op := by
  cases h with
  | next => exact absurd rfl hne
  | @sub _ _ _ _ _ _ _ _ op hfetch hstart =>
    refine ⟨op.opcode, ?_, hfetch⟩
    cases (start_gas hstart).2 with
    | call kind =>
      cases kind with
      | delegateCall => exact absurd rfl hne
      | _ => decide
    | create withSalt => cases withSalt <;> decide

def StepsWithin (P : Precompiles) (handle : (q : Request) → σ → q.call.Reply × σ)
    (d e : Point σ) : Prop :=
  d.Step P handle e ∧ ∀ op ∈ changesContext, fetch d.env d.frame ≠ some op

theorem contract_of_stepsWithin {c d : Point σ}
    (h : Relation.ReflTransGen (StepsWithin P handle) c d) :
    d.env.ctx.contract = c.env.ctx.contract := by
  induction h with
  | refl => rfl
  | tail _ hstep ih =>
    rw [← ih]
    by_contra hne
    obtain ⟨op, hop, hfetch⟩ := step_changes_context hstep.1 hne
    exact hstep.2 op hop hfetch

/-- Every write is made by the instruction of a point, to the address of its frame. The address
changes with certain instructions only, so that along other steps, `DELEGATECALL` among them, all
frames write to one account. -/
theorem stores_in_context (P : Precompiles) (handle : (q : Request) → σ → q.call.Reply × σ)
    (c : Point σ) : (∀ d e : Point σ, d.Step P handle e →
      e.env.ctx.contract ≠ d.env.ctx.contract →
      ∃ op ∈ changesContext, fetch d.env d.frame = some op) ∧
    (∀ d, Relation.ReflTransGen (StepsWithin P handle) c d →
      d.env.ctx.contract = c.env.ctx.contract) ∧
    ∀ pre q addr, Makes handle (runLoop P c.fuel c.env c.frame) c.host pre q → Stores addr q.call →
      ∃ d op own, c.Reaches P handle d ∧ d.Performs P handle op own q ∧
        addr = d.env.ctx.contract := by
  refine ⟨fun d e => step_changes_context, fun d => contract_of_stepsWithin,
    fun pre q addr hmakes hstores => ?_⟩
  rcases makes_runLoop hmakes with ⟨d, op, _, own, hreach, -, -, hown⟩ | hdeploys
  · refine ⟨d, op, own, hreach, hown, ?_⟩
    have hasks := hown.asks.2
    generalize q.call = call at hstores hasks
    cases hstores with
    | storage key value =>
      cases hasks with
      | sstore => rfl
      | sub h => cases h with | create _ _ hc => cases hc
    | transient key value =>
      cases hasks with
      | tstore => rfl
      | sub h => cases h with | create _ _ hc => cases hc
  · generalize q.call = call at hstores hdeploys
    cases hstores <;> cases hdeploys

end

/-- `0xc1` runs `PUSH1 1 PUSH0 SSTORE` of `0xc2` with `CALLCODE`, which writes to `0xc2`. -/
theorem callcode_stores_in_target :
    let host := (run handle (runLoop noPrecompiles 10
      (Env.new { callingEnv.ctx with bytecode := [0xf2] } 0) callingFrame)
      (calleeHost [0x60, 1, 0x5f, 0x55])).2
    host.state.getStorage 0xc2 0 = 1 ∧ host.state.getStorage 0xc1 0 = 0 := by
  decide +kernel

end ZbxChain

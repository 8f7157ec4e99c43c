import ZbxChain.Zvm.Instructions

/-!
# Gas accounting and termination of the ZVM

A frame never gains gas, whatever its code, its host and its precompiles, and an
instruction after which the loop goes on makes it poorer. So the gas of a frame bounds the
iterations of its loop and those of all frames below it: fuel above the gas is enough
(`ran_runLoop`), and more fuel gives the same run (`runLoop_eq_of_gas_lt`).
-/

namespace ZbxChain.Zvm

open FrameM Interaction

/-! ## The loop within bounds -/

structure Bounds.Closed (B : Bounds) : Prop where
  own : ∀ env op c, B.envs env → Asks env op c → B.asks env ⟨env.ctx.contract, c⟩
  envs : ∀ env op subEnv subFrame, B.envs env → Starts env op subEnv subFrame → B.envs subEnv
  asks : ∀ env op subEnv subFrame q, B.envs env → Starts env op subEnv subFrame →
    B.asks subEnv q → B.asks env q

section

variable {B : Bounds} {P : Precompiles}

def Bounds.below (B : Bounds) (gas : Nat) : Bounds := { B with gas := gas }

variable {env : Env} {f : Frame}

theorem ended_dispatch {run : FrameRun} {op : Opcode} (hB : B.Closed)
    (hrun : (B.below f.gas).Sub run) (henv : B.envs env) (hgas : opcodeGas op ≤ f.gas) :
    (dispatch P run op env { f with gas := f.gas - opcodeGas op }).Ensures (B.asks env)
      fun r => Ended B (fun _ => 1) (fun _ => True) f.gas r := by
  cases hfree : op.isFree with
  | true =>
    have hspec : Spec (B.below (f.gas + 1)) (dispatch P run op) (fun _ => 0) fun _ _ => False :=
      (spec_execute_free hfree).dispatch
    have hlt : f.gas - opcodeGas op < f.gas + 1 := by omega
    refine (hspec.ensures env _ henv hlt).mono (fun _ hq => hq) fun r hr => ?_
    cases r with
    | ok _ f' => exact hr.2.elim
    | error h f' => exact ⟨Nat.le_trans hr.1 (Nat.sub_le _ _), hr.2⟩
  | false =>
    have hpos : 0 < opcodeGas op := opcodeGas_pos hfree
    have hspec := (steps_execute (P := P) hrun fun env c => hB.own env op c).dispatch
    have hlt : f.gas - opcodeGas op < f.gas := by omega
    refine (hspec.ensures env _ henv hlt).mono (fun _ hq => hq) fun r hr => ?_
    cases r with
    | ok _ f' => exact ⟨Nat.le_trans (Nat.succ_le_succ hr.1) hlt, trivial⟩
    | error h f' => exact ⟨Nat.le_trans hr.1 (Nat.sub_le _ _), hr.2⟩

theorem ran_runLoop (hB : B.Closed) {fuel : Nat} (henv : B.envs env)
    (hfuel : f.gas < fuel ∨ B.mayRunOut) :
    (runLoop P fuel env f).Ensures (B.asks env) (B.Ran f.gas) := by
  induction fuel generalizing env f with
  | zero =>
    refine ⟨le_rfl, fun _ => ?_⟩
    exact hfuel.resolve_left (Nat.not_lt_zero _)
  | succ fuel ih =>
    have hless : ∀ {gas : Nat}, gas < f.gas → gas < fuel ∨ B.mayRunOut := by
      intro gas hlt
      exact hfuel.imp_left fun h => by omega
    have hrun : (B.below f.gas).Sub (runLoop P fuel) := by
      intro env' op subEnv subFrame henv' hstarts hlt
      have hsub := ih (hB.envs env' op subEnv subFrame henv' hstarts) (hless hlt)
      exact hsub.mono (fun q => hB.asks env' op subEnv subFrame q henv' hstarts) fun _ h => h
    rw [runLoop]
    cases env.ctx.bytecode[f.pc]? with
    | none => exact ⟨le_rfl, nofun⟩
    | some byte =>
      dsimp only
      cases Opcode.fromU8 byte with
      | none => exact ⟨le_rfl, nofun⟩
      | some op =>
        dsimp only
        split
        · exact ⟨le_rfl, nofun⟩
        rename_i hgas
        refine (ended_dispatch hB hrun henv (Nat.le_of_not_lt hgas)).bind fun r hr => ?_
        cases r with
        | ok _ f' =>
          have hlt : f'.gas < f.gas := hr.1
          refine (ih henv (hless hlt)).mono (fun _ hq => hq) fun r' hr' => ?_
          exact ⟨Nat.le_trans hr'.1 (Nat.le_of_lt hlt), hr'.2⟩
        | error h f' => exact hr

end

/-! ## For every host and every code -/

def anyFrame (gas : Nat) (mayRunOut : Prop) : Bounds where
  envs _ := True
  gas := gas
  asks _ _ := True
  mayRunOut := mayRunOut

theorem anyFrame_closed (gas : Nat) (mayRunOut : Prop) : (anyFrame gas mayRunOut).Closed where
  own _ _ _ _ _ := trivial
  envs _ _ _ _ _ _ := trivial
  asks _ _ _ _ _ _ _ _ := trivial

variable {f : Frame} {fuel : Nat}

variable (P : Precompiles)

theorem ran_any {mayRunOut : Prop} (env : Env) (hfuel : f.gas < fuel ∨ mayRunOut) :
    (runLoop P fuel env f).Ensures (fun _ => True) ((anyFrame 0 mayRunOut).Ran f.gas) :=
  ran_runLoop (anyFrame_closed 0 mayRunOut) trivial hfuel

theorem anyFrame_sub (fuel gas : Nat) : (anyFrame gas True).Sub (runLoop P fuel) :=
  fun _ _ subEnv _ _ _ _ => ran_any P subEnv (.inr trivial)

theorem ended_any (fuel : Nat) {op : Opcode} (env : Env) (hgas : opcodeGas op ≤ f.gas) :
    (dispatch P (runLoop P fuel) op env { f with gas := f.gas - opcodeGas op }).Ensures
      (fun _ => True) (Ended (anyFrame 0 True) (fun _ => 1) (fun _ => True) f.gas) :=
  ended_dispatch (anyFrame_closed 0 True) (anyFrame_sub P fuel f.gas) trivial hgas

section

variable {P : Precompiles} {run run' : FrameRun} {gas : Nat} {env : Env} {f : Frame}

theorem bind_congr_left {α β : Type} {x y : FrameM α} {k : α → FrameM β}
    (h : x env f = y env f) : (x >>= k) env f = (y >>= k) env f := by
  show FrameM.bind x k env f = FrameM.bind y k env f
  unfold FrameM.bind
  rw [h]

theorem runSub_congr {subEnv : Env} {subFrame : Frame}
    (h : run subEnv subFrame = run' subEnv subFrame) :
    runSub run subEnv subFrame = runSub run' subEnv subFrame := by
  funext env f
  unfold runSub
  rw [h]

theorem bind_plan_congr {π : Type} {sub : π → Env × Frame} {Q : Env → Option π → Prop}
    {prepare : FrameM (Option π)} {k k' : Option π → FrameM Unit}
    (hprepare : Spec (anyFrame gas True) prepare (fun plan => reserved (plan.map sub)) Q)
    (hgas : f.gas < gas) (hnone : k none = k' none)
    (hsome : ∀ plan, (sub plan).2.gas < gas → k (some plan) = k' (some plan)) :
    (prepare >>= k) env f = (prepare >>= k') env f := by
  refine (hprepare.ensures env f trivial hgas).bind_congr fun r hr => ?_
  cases r with
  | error e f' => rfl
  | ok plan f' =>
    cases plan with
    | none => exact congrArg (fun x : FrameM Unit => x env f') hnone
    | some plan =>
      have hle : f'.gas + (sub plan).2.gas ≤ f.gas := hr.1
      have hlt : (sub plan).2.gas < gas := by omega
      exact congrArg (fun x : FrameM Unit => x env f') (hsome plan hlt)

theorem doCall_congr (kind : ZvmCallKind)
    (h : ∀ subEnv subFrame, subFrame.gas < gas → run subEnv subFrame = run' subEnv subFrame)
    (hgas : f.gas < gas) : doCall P run kind env f = doCall P run' kind env f := by
  refine bind_plan_congr (spec_prepareCall P kind fun _ _ _ _ => trivial) hgas rfl ?_
  intro plan hlt
  have hsub := runSub_congr (h plan.env plan.frame hlt)
  dsimp only
  rw [hsub]

theorem doCreate_congr (withSalt : Bool)
    (h : ∀ subEnv subFrame, subFrame.gas < gas → run subEnv subFrame = run' subEnv subFrame)
    (hgas : f.gas < gas) : doCreate run withSalt env f = doCreate run' withSalt env f := by
  refine bind_plan_congr (spec_prepareCreate withSalt fun _ _ _ _ => trivial) hgas rfl ?_
  intro plan hlt
  have hsub := runSub_congr (h plan.env plan.frame hlt)
  dsimp only
  rw [hsub]

theorem dispatch_congr {op : Opcode}
    (h : ∀ subEnv subFrame, subFrame.gas < gas → run subEnv subFrame = run' subEnv subFrame)
    (hgas : op.isFree = false → f.gas < gas) :
    dispatch P run op env f = dispatch P run' op env f := by
  refine bind_congr_left ?_
  cases op
  case CREATE => exact bind_congr_left (doCreate_congr false h (hgas rfl))
  case CREATE2 => exact bind_congr_left (doCreate_congr true h (hgas rfl))
  case CALL => exact bind_congr_left (doCall_congr .call h (hgas rfl))
  case CALLCODE => exact bind_congr_left (doCall_congr .callCode h (hgas rfl))
  case DELEGATECALL => exact bind_congr_left (doCall_congr .delegateCall h (hgas rfl))
  case STATICCALL => exact bind_congr_left (doCall_congr .staticCall h (hgas rfl))
  -- the other instructions do not start sub-frames
  all_goals rfl

end

theorem runLoop_eq_of_gas_lt {fuel' : Nat} {env : Env} (h : f.gas < fuel)
    (h' : f.gas < fuel') : runLoop P fuel env f = runLoop P fuel' env f := by
  induction fuel generalizing fuel' env f with
  | zero => exact absurd h (Nat.not_lt_zero _)
  | succ fuel ih =>
    cases fuel' with
    | zero => exact absurd h' (Nat.not_lt_zero _)
    | succ fuel' =>
      have hsame : ∀ env' f', f'.gas < f.gas → runLoop P fuel env' f' = runLoop P fuel' env' f' :=
        fun env' f' hlt => ih (by omega) (by omega)
      rw [runLoop, runLoop]
      cases env.ctx.bytecode[f.pc]? with
      | none => rfl
      | some byte =>
        dsimp only
        cases Opcode.fromU8 byte with
        | none => rfl
        | some op =>
          dsimp only
          split
          · rfl
          rename_i hgas
          have hdispatch : dispatch P (runLoop P fuel) op env
              { f with gas := f.gas - opcodeGas op } =
              dispatch P (runLoop P fuel') op env { f with gas := f.gas - opcodeGas op } := by
            refine dispatch_congr hsame fun hfree => ?_
            have hpos : 0 < opcodeGas op := opcodeGas_pos hfree
            show f.gas - opcodeGas op < f.gas
            omega
          rw [hdispatch]
          refine (ended_any P fuel' env (Nat.le_of_not_lt hgas)).bind_congr fun r hr => ?_
          cases r with
          | ok _ f' => exact hsame env f' hr.1
          | error e f' => rfl

/-! ## Gas accounting -/

section

variable {P : Precompiles} {σ : Type} {handle : (q : Request) → σ → q.call.Reply × σ} {s s' : σ}
  {env subEnv : Env} {f f' subFrame : Frame} {result : ZvmResult}

theorem finish_gas (h : f.gas ≤ env.ctx.gasLimit) (status : ExecutionStatus) :
    (finish env f status).gasRemaining ≤ env.ctx.gasLimit ∧
      (finish env f status).gasUsed + (finish env f status).gasRemaining = env.ctx.gasLimit :=
  ⟨h, Nat.sub_add_cancel h⟩

theorem interpret_gas {ctx : ZvmContext} (h : (run handle (interpret P ctx) s).1 = some result) :
    result.gasRemaining ≤ ctx.gasLimit ∧ result.gasUsed + result.gasRemaining = ctx.gasLimit := by
  have hends : (interpret P ctx).Ensures (fun _ => True) fun r => ∀ result, r = some result →
      result.gasRemaining ≤ ctx.gasLimit ∧
        result.gasUsed + result.gasRemaining = ctx.gasLimit := by
    refine (ran_any P (Env.new ctx 0) (.inr trivial)).bind fun r hr => ?_
    obtain ⟨halt, f⟩ := r
    have hle : f.gas ≤ (Env.new ctx 0).ctx.gasLimit := hr.1
    cases halt with
    | stop status =>
      rintro _ ⟨⟩
      exact finish_gas hle status
    | error e =>
      rintro _ ⟨⟩
      exact finish_gas hle _
    | panic | outOfFuel => exact fun _ hnone => absurd hnone nofun
  exact hends.run s result h

theorem start_gas {op : SubOp}
    (h : run handle (op.start P env f) s = (.ok (some (subEnv, subFrame)) f', s')) :
    f'.gas + subFrame.gas ≤ f.gas ∧ Starts env op subEnv subFrame := by
  have hspec : Spec (anyFrame (f.gas + 1) True) (op.start P) reserved (Planned op) :=
    spec_start P fun _ _ _ _ => trivial
  have hended : Ended _ reserved (Planned op env) f.gas
      (run handle (op.start P env f) s).1 :=
    (hspec.ensures env f trivial (Nat.lt_succ_self _)).run s
  rw [h] at hended
  exact ⟨hended.1, hended.2 _ rfl⟩

theorem runSub_gas {fuel : Nat} {sub : Frame} (hlimit : subFrame.gas = subEnv.ctx.gasLimit)
    (h : run handle (runSub (runLoop P fuel) subEnv subFrame env f) s =
      (.ok (result, sub) f', s')) :
    result.gasRemaining ≤ subFrame.gas ∧ result.gasUsed + result.gasRemaining = subFrame.gas := by
  have hran : (runLoop P fuel subEnv subFrame).Ensures (fun _ => True)
      ((anyFrame 0 True).Ran subFrame.gas) := ran_any P subEnv (.inr trivial)
  have hended : Ended (anyFrame 0 True) _ _ _
      (run handle (runSub (runLoop P fuel) subEnv subFrame env f) s).1 :=
    (ended_runSub hran env f).run s
  rw [h] at hended
  obtain ⟨_, hgas, status, hresult⟩ := hended
  have hgas' : sub.gas ≤ subEnv.ctx.gasLimit := hlimit ▸ hgas
  have hfinish : result = finish subEnv sub status := hresult
  rw [hfinish, hlimit]
  exact finish_gas hgas' status

theorem exec_gas (fuel : Nat) (op : SubOp) (env : Env) (f : Frame) :
    (finalState (run handle (op.exec P (runLoop P fuel) env f) s).1).gas ≤ f.gas := by
  have hsteps : Steps (anyFrame (f.gas + 1) True) (op.exec P (runLoop P fuel)) :=
    steps_exec (anyFrame_sub P fuel _) fun _ _ _ _ => trivial
  exact ((hsteps.ensures env f trivial (Nat.lt_succ_self _)).run s).finalState_gas_le

end

/-- Gas is never created. For any code, host and precompiles, the gas used and the gas
remaining of a run make up its limit. When an instruction starts a sub-frame, its frame has
given up the gas of the sub-frame (`f'` is the frame at that moment); the sub-frame returns
at most this gas, and the instruction as a whole leaves at most the gas there was. -/
theorem gas_accounting {σ : Type} (handle : (q : Request) → σ → q.call.Reply × σ) :
    (∀ ctx s result, (run handle (interpret P ctx) s).1 = some result →
      result.gasUsed + result.gasRemaining = ctx.gasLimit ∧ result.gasRemaining ≤ ctx.gasLimit) ∧
    (∀ (op : SubOp) env f s subEnv subFrame f' s',
      run handle (op.start P env f) s = (.ok (some (subEnv, subFrame)) f', s') →
      f'.gas + subFrame.gas ≤ f.gas ∧ ∀ fuel result sub f'' s'',
        run handle (runSub (runLoop P fuel) subEnv subFrame env f') s' =
          (.ok (result, sub) f'', s'') → result.gasUsed + result.gasRemaining = subFrame.gas ∧
          result.gasRemaining ≤ subFrame.gas) ∧ (∀ fuel (op : SubOp) env f s,
      (finalState (run handle (op.exec P (runLoop P fuel) env f) s).1).gas ≤ f.gas) := by
  refine ⟨?_, ?_, ?_⟩
  · intro ctx s result hrun
    obtain ⟨hle, hsum⟩ := interpret_gas hrun
    exact ⟨hsum, hle⟩
  · intro op env f s subEnv subFrame f' s' hstart
    obtain ⟨hgiven, hstarts⟩ := start_gas hstart
    refine ⟨hgiven, fun fuel result sub f'' s'' hsub => ?_⟩
    obtain ⟨hle, hsum⟩ := runSub_gas hstarts.gas_eq hsub
    exact ⟨hsum, hle⟩
  · intro fuel op env f s
    exact exec_gas fuel op env f

/-! ## Termination -/

section

variable {P : Precompiles} {σ : Type} {handle : (q : Request) → σ → q.call.Reply × σ}

variable (P handle) in
/-- The frames of a run of `ctx` that are nested `n` deep: each is started by an instruction
of the one above it. -/
inductive Nested (ctx : ZvmContext) : Nat → Env → Prop
  | root : Nested ctx 0 (Env.new ctx 0)
  | sub {n : Nat} {env subEnv : Env} {op : SubOp} {f f' subFrame : Frame} {s s' : σ}
      (parent : Nested ctx n env)
      (start : run handle (op.start P env f) s =
        (.ok (some (subEnv, subFrame)) f', s')) : Nested ctx (n + 1) subEnv

variable {env : Env} {f : Frame} {fuel n : Nat} {ctx : ZvmContext}

theorem Nested.depth_eq (h : Nested P handle ctx n env) : env.depth = n := by
  induction h with
  | root => rfl
  | sub parent start ih => rw [(start_gas start).2.depth_eq, ih]

theorem Nested.le_callDepthLimit (h : Nested P handle ctx n env) : n ≤ callDepthLimit := by
  cases h with
  | root => exact Nat.zero_le _
  | sub parent start =>
    have hdepth := (start_gas start).2.depth_eq
    have hle := (start_gas start).2.depth_le
    rw [hdepth, parent.depth_eq] at hle
    exact hle

theorem runLoop_ne_outOfFuel (h : f.gas < fuel) (s : σ) :
    (run handle (runLoop P fuel env f) s).1.1 ≠ .outOfFuel := by
  have hran : (anyFrame 0 False).Ran f.gas (run handle (runLoop P fuel env f) s).1 :=
    (ran_any P env (.inl h)).run s
  exact hran.2

theorem dispatch_gas_lt {op : Opcode} {f' : Frame} {s s' : σ} (hgas : opcodeGas op ≤ f.gas)
    (h : run handle (dispatch P (runLoop P fuel) op env { f with gas := f.gas - opcodeGas op }) s =
      (.ok () f', s')) : f'.gas < f.gas := by
  have hended : Ended (anyFrame 0 True) (fun _ => 1) (fun _ => True) f.gas
      (run handle _ s).1 := (ended_any P fuel env hgas).run s
  rw [h] at hended
  exact hended.1

end

/-- Execution ends. From any frame, a recursion bound above its gas is not reached, so that
the loop of the source, which has none, makes the same finite run; an instruction after
which the loop goes on has used up gas of the frame; and no frame is nested deeper than the
limit. -/
theorem execution_terminates {σ : Type} (handle : (q : Request) → σ → q.call.Reply × σ) :
    (∀ env (f : Frame) s fuel, f.gas < fuel →
      (run handle (runLoop P fuel env f) s).1.1 ≠ .outOfFuel ∧
        runLoop P fuel env f = runLoop P (f.gas + 1) env f) ∧
    (∀ fuel op env (f f' : Frame) s s', opcodeGas op ≤ f.gas → run handle
        (dispatch P (runLoop P fuel) op env { f with gas := f.gas - opcodeGas op }) s =
        (.ok () f', s') → f'.gas < f.gas) ∧
    (∀ ctx n env, Nested P handle ctx n env → n ≤ callDepthLimit) := by
  refine ⟨?_, ?_, ?_⟩
  · intro env f s fuel hfuel
    exact ⟨runLoop_ne_outOfFuel hfuel s, runLoop_eq_of_gas_lt P hfuel (Nat.lt_succ_self _)⟩
  · intro fuel op env f f' s s' hgas hrun
    exact dispatch_gas_lt hgas hrun
  · intro ctx n env hnested
    exact hnested.le_callDepthLimit

end ZbxChain.Zvm

import Mathlib.Logic.Relation
import ZbxChain.Zvm.Instructions

/-!
# The points of a run

A run of the loop passes through points: a frame that is about to run an instruction, with the fuel
left and the state of the host. A step leads to the next point of the same frame, or to the first
one of the sub-frame that the instruction starts, so that the points reached from the first one are
those of the whole tree of frames.
-/

namespace ZbxChain.Zvm

open FrameM Interaction

/-! ## Instructions -/

def fetch (env : Env) (f : Frame) : Option Opcode := do
  let byte ← env.ctx.bytecode[f.pc]?
  let op ← Opcode.fromU8 byte
  if f.gas < opcodeGas op then none else some op

variable (f : Frame) (op : Opcode)

def Frame.pay : Frame := { f with gas := f.gas - opcodeGas op }

def resume (P : Precompiles) (fuel : Nat) (env : Env) :
    EStateM.Result Halt Frame Unit → HostM (Halt × Frame)
  | .ok _ f => runLoop P fuel env f
  | .error h f => .ret (h, f)

section

variable {P : Precompiles} {fuel : Nat} {env : Env} {f : Frame} {op : Opcode}

theorem fetch_eq_some (h : fetch env f = some op) :
    ∃ byte, env.ctx.bytecode[f.pc]? = some byte ∧ Opcode.fromU8 byte = some op ∧
      opcodeGas op ≤ f.gas := by
  obtain ⟨byte, hbyte, hrest⟩ := Option.bind_eq_some_iff.mp h
  obtain ⟨op', hop, hpaid⟩ := Option.bind_eq_some_iff.mp hrest
  by_cases hgas : f.gas < opcodeGas op'
  · rw [if_pos hgas] at hpaid
    cases hpaid
  rw [if_neg hgas] at hpaid
  cases hpaid
  exact ⟨byte, hbyte, hop, Nat.le_of_not_lt hgas⟩

theorem runLoop_of_fetch (h : fetch env f = some op) : runLoop P (fuel + 1) env f =
      dispatch P (runLoop P fuel) op env (f.pay op) >>= resume P fuel env := by
  obtain ⟨byte, hbyte, hop, hgas⟩ := fetch_eq_some h
  rw [runLoop]
  simp only [hbyte, hop, if_neg (Nat.not_lt.mpr hgas)]
  refine congrArg _ (funext fun r => ?_)
  cases r <;> rfl

theorem runLoop_of_fetch_none (P : Precompiles) (fuel : Nat) (h : fetch env f = none) :
    ∃ status, runLoop P (fuel + 1) env f = .ret (.stop status, f) := by
  rw [runLoop]
  cases hbyte : env.ctx.bytecode[f.pc]? with
  | none => exact ⟨_, rfl⟩
  | some byte =>
    cases hop : Opcode.fromU8 byte with
    | none => exact ⟨_, by simp only [hop]; rfl⟩
    | some op =>
      by_cases hgas : f.gas < opcodeGas op
      · exact ⟨_, by simp only [hop, if_pos hgas]; rfl⟩
      have hsome : fetch env f = some op := by simp [fetch, hbyte, hop, hgas]
      rw [hsome] at h
      cases h

end

theorem execute_cases :
    (∃ sub : SubOp, op = sub.opcode ∧ ∀ P run, execute P run op = andNext (sub.exec P run)) ∨
      ∀ P run run', execute P run op = execute P run' op := by
  cases op
  case CREATE => exact .inl ⟨.create false, rfl, fun _ _ => rfl⟩
  case CREATE2 => exact .inl ⟨.create true, rfl, fun _ _ => rfl⟩
  case CALL => exact .inl ⟨.call .call, rfl, fun _ _ => rfl⟩
  case CALLCODE => exact .inl ⟨.call .callCode, rfl, fun _ _ => rfl⟩
  case DELEGATECALL => exact .inl ⟨.call .delegateCall, rfl, fun _ _ => rfl⟩
  case STATICCALL => exact .inl ⟨.call .staticCall, rfl, fun _ _ => rfl⟩
  all_goals exact .inr fun _ _ _ => rfl

def withSub {π : Type} (prepare : FrameM (Option π)) (sub : π → Env × Frame)
    (settle : π → ZvmResult → Frame → FrameM Unit) (run : FrameRun) : FrameM Unit := do
  match ← prepare with
  | none => return ()
  | some plan =>
    let (result, subFrame) ← runSub run (sub plan).1 (sub plan).2
    settle plan result subFrame

theorem doCall_eq_withSub (P : Precompiles) (run : FrameRun) (kind : ZvmCallKind) :
    doCall P run kind = withSub (prepareCall P kind) CallPlan.sub finishCall run := by
  refine congrArg _ (funext fun plan => ?_)
  cases plan <;> rfl

theorem doCreate_eq_withSub (run : FrameRun) (withSalt : Bool) :
    doCreate run withSalt = withSub (prepareCreate withSalt) CreatePlan.sub finishCreate run := by
  refine congrArg _ (funext fun plan => ?_)
  cases plan <;> rfl

/-! ## Points -/

structure Point (σ : Type) where
  fuel : Nat
  env : Env
  frame : Frame
  host : σ

section

variable {σ : Type} (P : Precompiles) (handle : (q : Request) → σ → q.call.Reply × σ)

/-- From a point to the next one of its frame, or to the first one of a sub-frame. -/
inductive Point.Step : Point σ → Point σ → Prop
  | next {fuel : Nat} {env : Env} {f f' : Frame} {s s' : σ} {op : Opcode}
      (hfetch : fetch env f = some op)
      (hrun : run handle (dispatch P (runLoop P fuel) op env (f.pay op)) s = (.ok () f', s')) :
      Step ⟨fuel + 1, env, f, s⟩ ⟨fuel, env, f', s'⟩
  | sub {fuel : Nat} {env subEnv : Env} {f f' subFrame : Frame} {s s' : σ} {op : SubOp}
      (hfetch : fetch env f = some op.opcode)
      (hstart : run handle (op.start P env (f.pay op.opcode)) s =
        (.ok (some (subEnv, subFrame)) f', s')) :
      Step ⟨fuel + 1, env, f, s⟩ ⟨fuel, subEnv, subFrame, s'⟩

abbrev Point.Reaches : Point σ → Point σ → Prop := Relation.ReflTransGen (Point.Step P handle)

variable {P handle} in
theorem run_next {fuel : Nat} {env : Env} {f f' : Frame} {s s' : σ} {op : Opcode}
    (hfetch : fetch env f = some op)
    (hrun : run handle (dispatch P (runLoop P fuel) op env (f.pay op)) s = (.ok () f', s')) :
    run handle (runLoop P (fuel + 1) env f) s = run handle (runLoop P fuel env f') s' := by
  rw [runLoop_of_fetch hfetch, run_bind, hrun]
  rfl

def noSub : FrameRun := fun _ f => .ret (.outOfFuel, f)

/-- The instruction at the point makes the requests `pre` and then `q`, before it starts a
sub-frame. -/
def Point.Performs (c : Point σ) (op : Opcode) (pre : List Request) (q : Request) : Prop :=
  fetch c.env c.frame = some op ∧
    Makes handle (dispatch P noSub op c.env (c.frame.pay op)) c.host pre q

end

/-! ## Where a request comes from -/

inductive Deploys : HostCall → Prop
  | setCode (addr : Address) (code : Bytes) : Deploys (.setCode addr code)
  | markCreatedThisTx (addr : Address) : Deploys (.markCreatedThisTx addr)

variable {α β σ π : Type} {P : Precompiles} {handle : (q : Request) → σ → q.call.Reply × σ}
  {env : Env} {f : Frame} {s : σ} {pre : List Request} {q : Request} {x : FrameM α}
  {runner : FrameRun} {op : Opcode} {sub : SubOp}

theorem makes_frame_bind {k : α → FrameM β} (h : Makes handle ((x >>= k) env f) s pre q) :
    Makes handle (x env f) s pre q ∨ ∃ a f' s' pre', run handle (x env f) s = (.ok a f', s') ∧
      pre = requests handle (x env f) s ++ pre' ∧ Makes handle (k a env f') s' pre' q := by
  rcases makes_bind h with hfirst | ⟨pre', hpre, hrest⟩
  · exact .inl hfirst
  cases hrun : run handle (x env f) s with
  | mk r s' =>
    rw [hrun] at hrest
    cases r with
    | ok a f' => exact .inr ⟨a, f', s', pre', rfl, hpre, hrest⟩
    | error e f' => exact absurd hrest not_makes_ret

theorem makes_bind_left (h : Makes handle (x env f) s pre q) (k : α → FrameM β) :
    Makes handle ((x >>= k) env f) s pre q := Makes.bind h _

theorem makes_andNext {x : FrameM Unit} (h : Makes handle (andNext x env f) s pre q) :
    Makes handle (x env f) s pre q := by
  rcases makes_frame_bind h with hfirst | ⟨_, _, _, _, _, _, hrest⟩
  · exact hfirst
  · exact absurd hrest not_makes_ret

theorem makes_dispatch {run : FrameRun} (h : Makes handle (dispatch P run op env f) s pre q) :
    Makes handle (execute P run op env f) s pre q := by
  rcases makes_frame_bind h with hfirst | ⟨flow, _, _, _, _, _, hrest⟩
  · exact hfirst
  · cases flow <;> exact absurd hrest not_makes_ret

theorem makes_runSub {subEnv : Env} {subFrame : Frame}
    (h : Makes handle (runSub runner subEnv subFrame env f) s pre q) :
    Makes handle (runner subEnv subFrame) s pre q := by
  rcases makes_bind h with hfirst | ⟨pre', _, hrest⟩
  · exact hfirst
  revert hrest
  obtain ⟨halt, f'⟩ := (Interaction.run handle (runner subEnv subFrame) s).1
  cases halt <;> exact fun hrest => absurd hrest not_makes_ret

theorem requests_map (prepare : FrameM (Option π)) (sub : π → Env × Frame) :
    requests handle ((prepare >>= fun plan => pure (plan.map sub)) env f) s =
      requests handle (prepare env f) s := by
  show requests handle (FrameM.bind prepare _ env f) s = _
  unfold FrameM.bind
  rw [requests_bind]
  cases (run handle (prepare env f) s).1 <;> exact List.append_nil _

theorem makes_withSub {prepare : FrameM (Option π)} {sub : π → Env × Frame}
    {settle : π → ZvmResult → Frame → FrameM Unit} (hsettle : ∀ plan result subFrame env f,
      (settle plan result subFrame env f).Ensures (fun q => Deploys q.call) fun _ => True)
    (h : Makes handle (withSub prepare sub settle runner env f) s pre q) :
    let start := (prepare >>= fun plan => pure (plan.map sub)) env f
    Makes handle start s pre q ∨ (∃ subEnv subFrame f' s' pre',
        run handle start s = (.ok (some (subEnv, subFrame)) f', s') ∧
        pre = requests handle start s ++ pre' ∧
        Makes handle (runner subEnv subFrame) s' pre' q) ∨ Deploys q.call := by
  rcases makes_frame_bind h with hfirst | ⟨plan, f', s', pre', hrun, hpre, hrest⟩
  · exact .inl (makes_bind_left hfirst _)
  cases plan with
  | none => exact absurd hrest not_makes_ret
  | some plan =>
    rcases makes_frame_bind hrest with hsub | ⟨r, f'', s'', pre'', _, _, hlast⟩
    · refine .inr (.inl ⟨_, _, f', s', pre', run_bind_ok hrun, ?_, makes_runSub hsub⟩)
      exact hpre.trans (congrArg (· ++ pre') (requests_map _ sub).symm)
    · exact .inr (.inr ((hsettle plan r.1 r.2 env f'').requests s'' q hlast.mem))

def deploying (gas : Nat) : Bounds where
  envs _ := True
  gas := gas
  asks _ q := Deploys q.call
  mayRunOut := True

theorem deploys_absorb {result : ZvmResult} {subFrame : Frame} {x : FrameM Unit}
    (hx : Steps (deploying (f.gas + result.gasRemaining + 1)) x) :
    ((absorb result subFrame >>= fun _ => x) env f).Ensures (fun q => Deploys q.call) fun _ => True :=
  (ended_absorb hx trivial (Nat.lt_succ_self _)).mono (fun _ hq => hq) fun _ _ => trivial

theorem finishCall_deploys (plan : CallPlan) (result : ZvmResult) (sub : Frame) (env : Env)
    (f : Frame) :
    (finishCall plan result sub env f).Ensures (fun q => Deploys q.call) fun _ => True :=
  deploys_absorb (steps_finishCall plan result)

theorem finishCreate_deploys (plan : CreatePlan) (result : ZvmResult) (sub : Frame) (env : Env)
    (f : Frame) :
    (finishCreate plan result sub env f).Ensures (fun q => Deploys q.call) fun _ => True :=
  deploys_absorb (steps_finishCreate plan.newAddr result (fun _ _ => .setCode _ _)
    fun _ _ => .markCreatedThisTx _)

theorem makes_exec (h : Makes handle (sub.exec P runner env f) s pre q) :
    Makes handle (sub.start P env f) s pre q ∨ (∃ subEnv subFrame f' s' pre',
        run handle (sub.start P env f) s = (.ok (some (subEnv, subFrame)) f', s') ∧
        pre = requests handle (sub.start P env f) s ++ pre' ∧
        Makes handle (runner subEnv subFrame) s' pre' q) ∨ Deploys q.call := by
  cases sub with
  | call kind =>
    rw [SubOp.exec, doCall_eq_withSub] at h
    exact makes_withSub finishCall_deploys h
  | create withSalt =>
    rw [SubOp.exec, doCreate_eq_withSub] at h
    exact makes_withSub finishCreate_deploys h

theorem makes_of_start (h : Makes handle (sub.start P env f) s pre q) (runner : FrameRun) :
    Makes handle (sub.exec P runner env f) s pre q := by
  obtain ⟨post, hpost⟩ := h
  cases sub with
  | call kind => exact makes_bind_left ⟨post, (requests_map _ CallPlan.sub).symm.trans hpost⟩ _
  | create withSalt =>
    exact makes_bind_left ⟨post, (requests_map _ CreatePlan.sub).symm.trans hpost⟩ _

theorem makes_runLoop {fuel : Nat} (h : Makes handle (runLoop P fuel env f) s pre q) :
    (∃ c op before own, Point.Reaches P handle ⟨fuel, env, f, s⟩ c ∧ pre = before ++ own ∧
      c.host = serve handle s before ∧ c.Performs P handle op own q) ∨ Deploys q.call := by
  induction fuel generalizing env f s pre with
  | zero => exact absurd h not_makes_ret
  | succ fuel ih =>
    cases hfetch : fetch env f with
    | none =>
      obtain ⟨status, hret⟩ := runLoop_of_fetch_none P fuel hfetch
      rw [hret] at h
      exact absurd h not_makes_ret
    | some op =>
      -- a later point of the run, reached by one step
      have hlater : ∀ {c : Point σ} {before pre' : List Request},
          Point.Step P handle ⟨fuel + 1, env, f, s⟩ c → pre = before ++ pre' →
          c.host = serve handle s before → c.fuel = fuel →
          Makes handle (runLoop P c.fuel c.env c.frame) c.host pre' q →
          (∃ c op before own, Point.Reaches P handle ⟨fuel + 1, env, f, s⟩ c ∧
            pre = before ++ own ∧ c.host = serve handle s before ∧ c.Performs P handle op own q) ∨
          Deploys q.call := by
        rintro ⟨fuel', env', f', s'⟩ before pre' hstep hpre hhost hfuel hmakes
        obtain rfl : fuel' = fuel := hfuel
        rcases ih hmakes with ⟨c, op, before', own, hreach, hpre', hhost', hown⟩ | hdeploy
        · refine .inl ⟨c, op, before ++ before', own, .head hstep hreach, ?_, ?_, hown⟩
          · rw [hpre, hpre', List.append_assoc]
          · rw [hhost', serve_append]
            exact congrArg (serve handle · before') hhost
        · exact .inr hdeploy
      rw [runLoop_of_fetch hfetch] at h
      rcases makes_bind h with hfirst | ⟨pre', hpre, hrest⟩
      · have hown : Makes handle (execute P noSub op env (f.pay op)) s pre q →
            Point.Performs P handle ⟨fuel + 1, env, f, s⟩ op pre q :=
          fun hmakes => ⟨hfetch, makes_bind_left hmakes _⟩
        have hexec := makes_dispatch hfirst
        rcases execute_cases op with ⟨sub, rfl, hsub⟩ | hsame
        · rw [hsub] at hexec hown
          rcases makes_exec (makes_andNext hexec) with hstart |
            ⟨subEnv, subFrame, f', s', pre', hrun, hpre, hmakes⟩ | hdeploy
          · refine .inl ⟨_, sub.opcode, [], pre, .refl, rfl, rfl, hown ?_⟩
            exact makes_bind_left (makes_of_start hstart noSub) _
          · refine hlater (.sub hfetch hrun) hpre ?_ rfl hmakes
            have hserve := run_snd handle (sub.start P env (f.pay sub.opcode)) s
            rw [hrun] at hserve
            exact hserve
          · exact .inr hdeploy
        · rw [hsame P _ noSub] at hexec
          exact .inl ⟨_, op, [], pre, .refl, rfl, rfl, hown hexec⟩
      · have hserve := run_snd handle (dispatch P (runLoop P fuel) op env (f.pay op)) s
        cases hrun : run handle (dispatch P (runLoop P fuel) op env (f.pay op)) s with
        | mk r s' =>
          rw [hrun] at hrest hserve
          cases r with
          | ok _ f' => exact hlater (.next hfetch hrun) hpre hserve rfl hrest
          | error e f' => exact absurd hrest not_makes_ret

def asking (env : Env) (op : Opcode) (gas : Nat) : Bounds where
  envs := (· = env)
  gas := gas
  asks env q := q.contract = env.ctx.contract ∧ Asks env op q.call
  mayRunOut := True

theorem Point.Performs.asks {c : Point σ} (h : c.Performs P handle op pre q) :
    q.contract = c.env.ctx.contract ∧ Asks c.env op q.call := by
  obtain ⟨-, hmakes⟩ := h
  have hrun : (asking c.env op (c.frame.gas + 1)).Sub noSub :=
    fun _ _ _ _ _ _ _ => ⟨le_rfl, fun _ => trivial⟩
  have hspec : Steps (asking c.env op (c.frame.gas + 1)) (dispatch P noSub op) :=
    (steps_execute hrun fun _ _ _ hasks => ⟨rfl, hasks⟩).dispatch
  have hlt : (c.frame.pay op).gas < c.frame.gas + 1 := Nat.lt_succ_of_le (Nat.sub_le _ _)
  exact (hspec.ensures c.env (c.frame.pay op) rfl hlt).requests c.host q hmakes.mem

end ZbxChain.Zvm

import ZbxChain.Execution.SubFrames
import ZbxChain.Zvm.Gas
import ZbxChain.Zvm.MemorySteps
import ZbxChain.Zvm.Trace

/-!
# Runs and memory

From one instruction to the whole tree of frames: if the windows of all instructions fit
the frames that are about to run them, no frame panics and all memory is paid for
(`memory_safe`). Windows that do not fit are the end of the address space, whose rounded
size wraps to zero, charges that saturate, and the strings of `PAYID` and `ZVMLOG`, which
are not charged for (`unpaid_memory`).
-/

namespace ZbxChain.Zvm

open FrameM Interaction ProductionZvmHost Point Env

/-! ## All instructions -/

section

variable {limit : Nat} {env : Env} {f : Frame} {P : Precompiles} {run : FrameRun} {op : Opcode}

theorem keeps_andNext {x : FrameM Unit} (hx : KeepsPaid limit x env f) :
    KeepsPaid limit (andNext x) env f :=
  keeps_bind hx fun _ _ hpaid => keeps_of_ret rfl hpaid

theorem keeps_execute (hpaid : Paid limit f)
    (hfits : ∀ a ∈ accesses env.ctx.isStatic op f.stack, a.Fits limit f)
    (hsub : ∀ sub : SubOp, op ≠ sub.opcode) : KeepsPaid limit (execute P run op) env f := by
  cases op
  case CREATE => exact absurd rfl (hsub (.create false))
  case CREATE2 => exact absurd rfl (hsub (.create true))
  case CALL => exact absurd rfl (hsub (.call .call))
  case CALLCODE => exact absurd rfl (hsub (.call .callCode))
  case DELEGATECALL => exact absurd rfl (hsub (.call .delegateCall))
  case STATICCALL => exact absurd rfl (hsub (.call .staticCall))
  case STOP | INVALID => exact keeps_of_tame (tame_halt nofun) hpaid
  case JUMP => exact keeps_of_tame (tame.popU64.bind fun _ => tame.jumpTo _) hpaid
  case JUMPI => exact keeps_of_tame tame.jumpi hpaid
  case JUMPDEST => exact keeps_of_tame (tame.pure _) hpaid
  all_goals refine keeps_andNext ?_
  case MLOAD => exact keeps_mload hpaid hfits
  case MSTORE => exact keeps_mstore hpaid hfits
  case MSTORE8 => exact keeps_mstore8 hpaid hfits
  case KECCAK256 => exact keeps_keccak hpaid hfits
  case RETURN | REVERT =>
    refine keeps_returnWith hpaid _ fun off len rest hstack => ?_
    rw [hstack] at hfits
    exact hfits _ List.mem_cons_self
  case LOG n => exact keeps_emitLog hpaid rfl hfits
  case CALLDATACOPY | CODECOPY =>
    refine keeps_bind_ret (a := env) rfl (keeps_copyFrom hpaid _ ?_)
    intro dst src len rest hstack
    rw [hstack] at hfits
    exact hfits _ List.mem_cons_self
  case RETURNDATACOPY => exact keeps_returndatacopy hpaid hfits
  case EXTCODECOPY => exact keeps_extcodecopy hpaid hfits
  case MCOPY => exact keeps_mcopy hpaid hfits
  case PAYID => exact keeps_payid hpaid hfits
  case ZVMLOG => exact keeps_zvmlog hpaid hfits
  -- the others have no windows
  all_goals refine keeps_of_tame ?_ hpaid
  case ADD | MUL | SUB | DIV | SDIV | MOD | SMOD | SIGNEXTEND | AND | OR | XOR | BYTE | SHL | SHR |
      SAR => exact tame.binaryOp _
  case ADDMOD | MULMOD => exact tame.ternaryOp _
  case EXP => exact tame.exp
  case LT | GT | SLT | SGT | EQ => exact tame.compareOp _
  case ISZERO | NOT => exact tame.unaryOp _
  case ADDRESS | ORIGIN | CALLER | AASENDER | CALLVALUE | CALLDATASIZE | CODESIZE | TIMESTAMP |
      NUMBER | CHAINID | BASEFEE | BLOBBASEFEE =>
    exact tame.env fun _ => tame.push _
  case CALLDATALOAD => exact tame.calldataload
  case RETURNDATASIZE | PC | MSIZE | GAS => exact tame.get.bind fun _ => tame.push _
  case BALANCE | EXTCODESIZE =>
    exact tame.queryAccount fun _ => (tame_host _).bind fun _ => tame.pure _
  case EXTCODEHASH => exact tame.queryAccount fun _ => tame_host _
  case GASPRICE | COINBASE | PREVRANDAO | GASLIMIT | ZBXPRICE | BLOBFEE =>
    exact (tame_host _).bind fun _ => tame.push _
  case BLOCKHASH | BLOBHASH =>
    exact tame.popU64.bind fun _ => (tame_host _).bind fun _ => tame.push _
  case SELFBALANCE =>
    exact tame.env fun _ => (tame_host _).bind fun _ => tame.push _
  case ZUSDBAL | PAYIDSET =>
    exact tame.popAddress.bind fun _ => (tame_host _).bind fun _ => tame.push _
  case ZBXTIME | CHAINVER | PUSH0 => exact tame.push _
  case POP => exact tame.pop.bind fun _ => tame.pure _
  case SLOAD => exact tame_sload
  case SSTORE => exact tame_sstore
  case TLOAD => exact tame_tload
  case TSTORE => exact tame_tstore
  case PUSH n => exact tame.pushOperand _
  case DUP n => exact tame.dup _
  case SWAP n => exact tame.swap _
  case SELFDESTRUCT => exact tame_selfdestruct
  case ZBXBURN => exact tame_zbxburn

end

/-! ## Runs -/

section

variable {σ : Type} {P : Precompiles} {handle : (q : Request) → σ → q.call.Reply × σ}
  {limit fuel : Nat} {env : Env} {f : Frame} {s : σ}

def EndsPaid (limit : Nat) (r : Halt × Frame) : Prop := r.1 ≠ .panic ∧ Paid limit r.2

variable {runner : FrameRun} {sub : SubOp} {α : Type} {x : FrameM α} {Q : α → Frame → Prop}

theorem kept_run (hx : Keeps limit x Q env f) (s : σ) :
    Kept limit Q (run handle (x env f) s).1 := Ensures.run hx s

theorem kept_withSub {π : Type} {prepare : FrameM (Option π)} {sub : π → Env × Frame}
    {settle : π → ZvmResult → Frame → FrameM Unit} {R : π → Frame → Prop}
    (hprepare : Keeps limit prepare (Ready limit sub R) env f)
    (hR : ∀ plan f f', R plan f → Poorer f f' → R plan f')
    (hpaid : ∀ plan f, R plan f → Paid limit f)
    (hsettle : ∀ plan result subFrame f', R plan { f' with gas := f'.gas + result.gasRemaining } →
      KeepsPaid limit (settle plan result subFrame) env f')
    (hrun : ∀ plan f' s', run handle (prepare env f) s = (.ok (some plan) f', s') →
      (run handle (runner (sub plan).1 (sub plan).2) s').1.1 ≠ .panic ∧
      (run handle (runner (sub plan).1 (sub plan).2) s').1.2.gas ≤ (sub plan).2.gas) :
    Kept limit (fun _ => Paid limit)
      (run handle (withSub prepare sub settle runner env f) s).1 := by
  have hprepared : Kept limit _ (run handle (prepare env f) s).1 := kept_run hprepare s
  unfold withSub
  cases hr : run handle (prepare env f) s with
  | mk r s₁ =>
    rw [hr] at hprepared
    cases r with
    | error e f₁ =>
      rw [run_bind_error hr]
      exact hprepared
    | ok plan f₁ =>
      rw [run_bind_ok hr]
      cases plan with
      | none => exact hprepared
      | some plan =>
        obtain ⟨hhalt, hgas⟩ := hrun plan f₁ s₁ hr
        have hready : R plan { f₁ with gas := f₁.gas + (sub plan).2.gas } := hprepared
        cases hsub : run handle (runner (sub plan).1 (sub plan).2) s₁ with
        | mk ended s₂ =>
          obtain ⟨halt, subFrame⟩ := ended
          rw [hsub] at hhalt hgas
          -- a sub-frame that ends is settled with at most the gas that was set aside
          have hends : ∀ status, Kept limit (fun _ => Paid limit) (run handle
              (settle plan (finish (sub plan).1 subFrame status) subFrame env f₁) s₂).1 := by
            intro status
            refine kept_run (hsettle plan _ subFrame f₁ (hR plan _ _ hready ⟨rfl, ?_⟩)) s₂
            exact Nat.add_le_add_left hgas _
          have hstarted : run handle
              (runSub runner (sub plan).1 (sub plan).2 env f₁) s₁ = _ :=
            run_bind handle (runner (sub plan).1 (sub plan).2) _ s₁
          rw [hsub] at hstarted
          cases halt with
          | stop status =>
            rw [run_bind_ok hstarted]
            exact hends status
          | error e =>
            rw [run_bind_ok hstarted]
            exact hends _
          | panic => exact absurd rfl hhalt
          | outOfFuel =>
            rw [run_bind_error hstarted]
            refine ⟨nofun, hpaid plan _ (hR plan _ _ hready ⟨rfl, ?_⟩)⟩
            exact Nat.le_add_right _ _

theorem kept_exec (hpaid : Paid limit f)
    (hfits : ∀ a ∈ accesses env.ctx.isStatic sub.opcode f.stack, a.Fits limit f)
    (hrun : ∀ subEnv subFrame f' s', run handle (sub.start P env f) s =
        (.ok (some (subEnv, subFrame)) f', s') →
      (run handle (runner subEnv subFrame) s').1.1 ≠ .panic ∧
      (run handle (runner subEnv subFrame) s').1.2.gas ≤ subFrame.gas) :
    Kept limit (fun _ => Paid limit) (run handle (sub.exec P runner env f) s).1 := by
  cases sub with
  | call kind =>
    have hwindows : ∀ a ∈ callAccesses kind f.stack, a.Fits limit f := by
      cases kind <;> exact hfits
    rw [SubOp.exec, doCall_eq_withSub]
    refine kept_withSub (keeps_prepareCall hpaid hwindows) (fun _ _ _ h hle => h.poorer hle)
      (fun _ _ h => h.toPaid) (fun _ _ _ _ h => keeps_finishCall h) ?_
    intro plan f' s' hprepare
    exact hrun _ _ f' s' (run_bind_ok hprepare)
  | create withSalt =>
    have hwindows : ∀ a ∈ createAccesses env.ctx.isStatic withSalt f.stack, a.Fits limit f := by
      cases withSalt <;> exact hfits
    rw [SubOp.exec, doCreate_eq_withSub]
    refine kept_withSub (keeps_prepareCreate hpaid hwindows) (fun _ _ _ h hle => h.poorer hle)
      (fun _ _ h => h) (fun _ _ _ _ h => keeps_finishCreate h) ?_
    intro plan f' s' hprepare
    exact hrun _ _ f' s' (run_bind_ok hprepare)

def Point.Fits (c : Point σ) : Prop :=
  ∀ op, fetch c.env c.frame = some op →
    ∀ a ∈ accesses c.env.ctx.isStatic op c.frame.stack,
      a.Fits c.env.ctx.gasLimit (c.frame.pay op)

theorem kept_bind_tame {β : Type} {k : α → FrameM β} {Q' : β → Frame → Prop}
    (hx : Kept limit Q (run handle (x env f) s).1)
    (hk : ∀ a f', Q a f' → Keeps limit (k a) Q' env f') :
    Kept limit Q' (run handle ((x >>= k) env f) s).1 := by
  cases hr : run handle (x env f) s with
  | mk r s₁ =>
    rw [hr] at hx
    cases r with
    | ok a f₁ =>
      rw [run_bind_ok hr]
      exact kept_run (hk a f₁ hx) s₁
    | error e f₁ =>
      rw [run_bind_error hr]
      exact hx

theorem Paid.pay (h : Paid limit f) (op : Opcode) : Paid limit (f.pay op) :=
  h.poorer ⟨rfl, Nat.sub_le _ _⟩

theorem paid_new (gas : Nat) (addresses : List Address) (slots : List (Address × H256)) :
    Paid gas (Frame.new gas addresses slots) :=
  ⟨rfl, by simp [memoryPrice, memoryWords, Frame.new]⟩

theorem Starts.paid {subEnv : Env} {subFrame : Frame} (h : Starts env sub subEnv subFrame) :
    Paid subEnv.ctx.gasLimit subFrame := by
  cases h <;> exact paid_new _ _ _

theorem kept_dispatch {op : Opcode} (hpaid : Paid env.ctx.gasLimit f)
    (hfits : (mk (fuel + 1) env f s).Fits) (hfetch : fetch env f = some op)
    (hsub : ∀ c, Step P handle ⟨fuel + 1, env, f, s⟩ c → c.fuel = fuel →
      Paid c.env.ctx.gasLimit c.frame → EndsPaid c.env.ctx.gasLimit
        (run handle (runLoop P fuel c.env c.frame) c.host).1) :
    Kept env.ctx.gasLimit (fun _ => Paid env.ctx.gasLimit)
      (run handle (dispatch P (runLoop P fuel) op env (f.pay op)) s).1 := by
  have hwindows := hfits op hfetch
  have hexecute : Kept env.ctx.gasLimit (fun _ => Paid env.ctx.gasLimit)
      (run handle (execute P (runLoop P fuel) op env (f.pay op)) s).1 := by
    by_cases hop : ∃ sub : SubOp, op = sub.opcode
    · obtain ⟨sub, rfl⟩ := hop
      have hexec : execute P (runLoop P fuel) sub.opcode = andNext (sub.exec P (runLoop P fuel)) := by
        cases sub with
        | call kind => cases kind <;> rfl
        | create withSalt => cases withSalt <;> rfl
      rw [hexec]
      refine kept_bind_tame (kept_exec (hpaid.pay _) hwindows ?_) fun _ _ h => keeps_of_ret rfl h
      intro subEnv subFrame f' s' hstart
      have hstarts := (start_gas hstart).2
      have hends := hsub ⟨fuel, subEnv, subFrame, s'⟩ (.sub hfetch hstart) rfl (Starts.paid hstarts)
      have hran : (anyFrame 0 True).Ran subFrame.gas
          (run handle (runLoop P fuel subEnv subFrame) s').1 :=
        (ran_any P subEnv (.inr trivial)).run s'
      exact ⟨hends.1, hran.1⟩
    · exact kept_run (keeps_execute (hpaid.pay op) hwindows fun sub h => hop ⟨sub, h⟩) s
  refine kept_bind_tame hexecute fun flow f' hpaid' => ?_
  cases flow with
  | next => exact keeps_of_tame (tame.modify fun _ => ⟨rfl, le_rfl⟩) hpaid'
  | jumped => exact keeps_of_ret rfl hpaid'

theorem endsPaid_runLoop (hpaid : Paid env.ctx.gasLimit f)
    (hfits : ∀ c, Reaches P handle ⟨fuel, env, f, s⟩ c → c.Fits) :
    EndsPaid env.ctx.gasLimit (run handle (runLoop P fuel env f) s).1 := by
  induction fuel generalizing env f s with
  | zero => exact ⟨nofun, hpaid⟩
  | succ fuel ih =>
    have hstep : ∀ c, Step P handle ⟨fuel + 1, env, f, s⟩ c → c.fuel = fuel →
        Paid c.env.ctx.gasLimit c.frame → EndsPaid c.env.ctx.gasLimit
          (run handle (runLoop P fuel c.env c.frame) c.host).1 := by
      rintro ⟨fuel', env', f', s'⟩ hstep hfuel hpaid'
      obtain rfl : fuel' = fuel := hfuel
      exact ih hpaid' fun c hreach => hfits c (.head hstep hreach)
    cases hfetch : fetch env f with
    | none =>
      obtain ⟨status, hret⟩ := runLoop_of_fetch_none P fuel hfetch
      rw [hret]
      exact ⟨nofun, hpaid⟩
    | some op =>
      have hkept := kept_dispatch hpaid (hfits _ .refl) hfetch hstep
      rw [runLoop_of_fetch hfetch, run_bind]
      cases hrun : run handle (dispatch P (runLoop P fuel) op env (f.pay op)) s with
      | mk r s' =>
        rw [hrun] at hkept
        cases r with
        | ok _ f' => exact hstep ⟨fuel, env, f', s'⟩ (.next hfetch hrun) rfl hkept
        | error e f' => exact hkept

theorem paid_of_reaches {c c' : Point σ} (hpaid : Paid c.env.ctx.gasLimit c.frame)
    (hfits : ∀ d, Reaches P handle c d → d.Fits) (h : Reaches P handle c c') :
    Paid c'.env.ctx.gasLimit c'.frame := by
  induction h with
  | refl => exact hpaid
  | tail hreach hstep ih =>
    cases hstep with
    | @next fuel env f f' s s' op hfetch hrun =>
      have hkept := kept_dispatch ih (hfits _ hreach) hfetch fun d'' hstep hfuel hpaid'' => by
        obtain ⟨fuel'', env'', f'', s''⟩ := d''
        obtain rfl : fuel'' = fuel := hfuel
        exact endsPaid_runLoop hpaid'' fun e hreach' => hfits e
          (hreach.trans (.head hstep hreach'))
      rw [hrun] at hkept
      exact hkept
    | @sub fuel env subEnv f f' subFrame s s' op hfetch hstart =>
      exact Starts.paid (start_gas hstart).2

end

/-! ## Windows that do not fit -/

def Access.perform (a : Access) : FrameM Bytes :=
  if a.charged then chargeWindow a.off a.len >>= fun _ => readSlice a.off a.len
  else readSlice a.off a.len

section

variable {limit off len : Nat} {env : Env} {f : Frame}

theorem chargeWindow_overflow (h : u64Bound ≤ off + len + 31) :
    chargeWindow off len env f = .ret (.ok () f) := by
  have hne : satU64 (off + len) ≠ 0 := by
    unfold satU64 u64Bound at *
    omega
  have hwords : wordCount (satU64 (off + len)) = 0 := by
    unfold wordCount satU64 u64Bound at *
    omega
  have hdelta : memoryGasDelta (memoryWords f) (wordCount (satU64 (off + len))) = 0 := by
    rw [hwords]
    exact if_pos (Nat.zero_le _)
  unfold chargeWindow chargeMemExpansion
  rw [if_neg hne]
  show (if memoryGasDelta (memoryWords f) (wordCount (satU64 (off + len))) = 0 then _ else _ :
    FrameM Unit) env f = _
  rw [if_pos hdelta]
  rfl

theorem slice_panic {start stop : Nat} (h : ¬ (start ≤ stop ∧ stop ≤ f.memory.length)) :
    slice start stop env f = .ret (.error .panic f) := by
  show (if start ≤ stop ∧ stop ≤ f.memory.length then _ else _ : FrameM Bytes) env f = _
  rw [if_neg h]
  rfl

theorem resize_of_lt {size : Nat} (h : f.memory.length < size) :
    resize size env f = (if vecBound ≤ wordCount size * 32 then FrameM.panic
      else setMemory (f.memory.take (wordCount size * 32) ++
        List.replicate (wordCount size * 32 - f.memory.length) 0) : FrameM Unit) env f := by
  show (if f.memory.length < size then _ else _ : FrameM Unit) env f = _
  rw [if_pos h]

theorem resize_cases (size : Nat) (env : Env) (f : Frame) :
    resize size env f = .ret (.error .panic f) ∨ ∃ f', resize size env f = .ret (.ok () f') := by
  by_cases h : f.memory.length < size
  · rw [resize_of_lt h]
    split
    · exact .inl rfl
    · exact .inr ⟨_, rfl⟩
  refine .inr ⟨f, ?_⟩
  show (if f.memory.length < size then _ else _ : FrameM Unit) env f = _
  rw [if_neg h]
  rfl

theorem readSlice_overflow (env : Env) (hoff : off < u64Bound) (hlen : len < u64Bound)
    (hvec : f.memory.length < vecBound) (h : u64Bound ≤ off + len + 31) :
    ∃ f', readSlice off len env f = .ret (.error .panic f') := by
  unfold readSlice
  by_cases hsum : off + len < u64Bound
  · have hwrap : wrapAdd off len = off + len := Nat.mod_eq_of_lt hsum
    have hlt : f.memory.length < off + len := by
      unfold vecBound u64Bound at *
      omega
    have hwords : wordCount (off + len) = 0 := by
      unfold wordCount u64Bound at *
      omega
    have hresize : resize (off + len) env f = .ret (.ok () { f with memory := [] }) := by
      rw [resize_of_lt hlt, hwords, Nat.zero_mul, if_neg (by decide), List.take_zero, Nat.zero_sub]
      rfl
    rw [hwrap, bind_of_ret hresize, slice_panic]
    · exact ⟨_, rfl⟩
    rintro ⟨_, hstop⟩
    have hzero : off + len ≤ 0 := hstop
    omega
  · have hwrap : wrapAdd off len < off := by
      unfold wrapAdd u64Bound at *
      omega
    rcases resize_cases (wrapAdd off len) env f with hpanic | ⟨f', hok⟩
    · exact ⟨f, bind_of_error hpanic _⟩
    rw [bind_of_ret hok, slice_panic]
    · exact ⟨_, rfl⟩
    · rintro ⟨hstart, _⟩
      omega

theorem readSlice_tooLarge (halign : f.memory.length % 32 = 0) (hvec : f.memory.length < vecBound)
    (hend : off + len + 31 < u64Bound) (h : vecBound ≤ windowWords off len * 32) :
    readSlice off len env f = .ret (.error .panic f) := by
  have hwrap : wrapAdd off len = off + len := Nat.mod_eq_of_lt (by omega)
  have hlt : f.memory.length < off + len := by
    unfold windowWords at h
    omega
  have hresize : resize (off + len) env f = .ret (.error .panic f) := by
    rw [resize_of_lt hlt, wordCount_eq hend]
    show (if vecBound ≤ windowWords off len * 32 then FrameM.panic else _ : FrameM Unit) env f = _
    rw [if_pos h]
    rfl
  unfold readSlice
  rw [hwrap]
  exact bind_of_error hresize _

theorem readSlice_grows (env : Env) (halign : f.memory.length % 32 = 0)
    (hend : off + len + 31 < u64Bound) (h : windowWords off len * 32 < vecBound) :
    ∃ bytes, readSlice off len env f = .ret (.ok bytes (f.grow (windowWords off len))) := by
  have hcovered : Covered (memoryPrice (max (memoryWords f) (windowWords off len)) + f.gas)
      off len f := ⟨hend, h, halign, le_rfl⟩
  obtain ⟨bytes, _, hrun⟩ := readSlice_eq env hcovered
  exact ⟨bytes, hrun⟩

theorem perform_of_afford (a : Access) (hend : a.off + a.len + 31 < u64Bound)
    (hgas : ¬ f.gas < a.charge f) :
    a.perform env f = readSlice a.off a.len env { f with gas := f.gas - a.charge f } := by
  obtain ⟨off, len, charged⟩ := a
  unfold Access.perform
  cases charged with
  | false => rfl
  | true =>
    have hrun : chargeWindow off len env f = _ := chargeWindow_eq hend
    rw [if_neg hgas] at hrun
    rw [if_pos rfl]
    exact bind_of_ret hrun _

theorem perform_of_overflow (a : Access) (h : u64Bound ≤ a.off + a.len + 31) :
    a.perform env f = readSlice a.off a.len env f := by
  unfold Access.perform
  cases a.charged with
  | false => rfl
  | true => exact bind_of_ret (chargeWindow_overflow h) _

variable {a : Access}

theorem keeps_perform (hpaid : Paid limit f) (hfits : a.Fits limit f) :
    KeepsPaid limit a.perform env f := by
  obtain ⟨off, len, charged⟩ := a
  have hread : ∀ f', Covered limit off len f' → KeepsPaid limit (readSlice off len) env f' := by
    intro f' hcovered
    obtain ⟨bytes, _, hrun⟩ := readSlice_eq env hcovered
    exact keeps_of_ret hrun (hcovered.open (le_rfl)).toPaid
  cases charged with
  | false => exact hread f (hfits.covered_free hpaid)
  | true => exact keeps_bind_charge hfits hpaid (.refl f) fun f' hcovered _ => hread f' hcovered

theorem keeps_perform_iff (hoff : a.off < u64Bound) (hlen : a.len < u64Bound)
    (hvec : f.memory.length < vecBound) (hpaid : Paid limit f) :
    KeepsPaid limit a.perform env f ↔ a.Fits limit f := by
  refine ⟨fun hkeeps => ?_, keeps_perform hpaid⟩
  have hend : a.off + a.len + 31 < u64Bound := by
    by_contra hover
    obtain ⟨f', hpanic⟩ := readSlice_overflow env hoff hlen hvec (Nat.le_of_not_lt hover)
    unfold KeepsPaid Keeps at hkeeps
    rw [perform_of_overflow a (Nat.le_of_not_lt hover), hpanic] at hkeeps
    exact hkeeps.1 rfl
  refine ⟨hend, ?_⟩
  by_cases hgas : f.gas < a.charge f
  · exact .inl hgas
  unfold KeepsPaid Keeps at hkeeps
  rw [perform_of_afford a hend hgas] at hkeeps
  have halign : ({ f with gas := f.gas - a.charge f } : Frame).memory.length % 32 = 0 :=
    hpaid.aligned
  by_cases hlarge : vecBound ≤ a.words * 32
  · have hpanic : readSlice a.off a.len env { f with gas := f.gas - a.charge f } = _ :=
      readSlice_tooLarge halign hvec hend hlarge
    rw [hpanic] at hkeeps
    exact absurd rfl hkeeps.1
  obtain ⟨bytes, hrun⟩ := readSlice_grows env halign hend (Nat.lt_of_not_le hlarge)
  rw [hrun] at hkeeps
  have hgrown : Paid limit (({ f with gas := f.gas - a.charge f } : Frame).grow a.words) := hkeeps
  have hle := hgrown.paid
  rw [memoryWords_grow halign] at hle
  exact .inr ⟨Nat.lt_of_not_le hlarge, hle⟩

end

/-- Memory is safe and paid for as far as the windows fit. In a run in which the windows of
every instruction fit the frame that is about to run it, no frame panics, and each ends
having used at least the quadratic price of its memory. A single window fits exactly when
reading it (after its charge, if it has one) does not panic and keeps memory paid for. -/
theorem memory_safe (P : Precompiles) {σ : Type} (handle : (q : Request) → σ → q.call.Reply × σ) :
    (∀ (ctx : ZvmContext) (fuel : Nat) (s : σ) (c : Point σ), (∀ d, Reaches P handle
        ⟨fuel, new ctx 0, Frame.new ctx.gasLimit [] [], s⟩ d → d.Fits) →
      Reaches P handle ⟨fuel, new ctx 0, Frame.new ctx.gasLimit [] [], s⟩ c →
      (run handle (runLoop P c.fuel c.env c.frame) c.host).1.1 ≠ .panic ∧
      memoryPrice (memoryWords (run handle (runLoop P c.fuel c.env c.frame) c.host).1.2) ≤
        c.env.ctx.gasLimit - (run handle (runLoop P c.fuel c.env c.frame) c.host).1.2.gas) ∧
    (∀ (limit : Nat) (a : Access) (env : Env) (f : Frame), a.off < u64Bound → a.len < u64Bound →
      f.memory.length < vecBound → Paid limit f →
      (KeepsPaid limit a.perform env f ↔ a.Fits limit f)) := by
  refine ⟨?_, fun limit a env f hoff hlen hvec hpaid => keeps_perform_iff hoff hlen hvec hpaid⟩
  intro ctx fuel s c hfits hreach
  have hpaid := paid_of_reaches (paid_new ctx.gasLimit [] []) hfits hreach
  obtain ⟨hpanic, hends⟩ := endsPaid_runLoop hpaid fun d hd => hfits d (hreach.trans hd)
  have hle := hends.paid
  exact ⟨hpanic, by omega⟩

/-! ## Two programs -/

section

variable {σ : Type} {P : Precompiles} {handle : (q : Request) → σ → q.call.Reply × σ}

def subOpcodes : List Opcode := [.CALL, .CALLCODE, .DELEGATECALL, .STATICCALL, .CREATE, .CREATE2]

theorem SubOp.opcode_mem (sub : SubOp) : sub.opcode ∈ subOpcodes := by
  cases sub with
  | call kind => cases kind <;> decide
  | create withSalt => cases withSalt <;> decide

variable {c d : Point σ}

theorem Point.Step.eq_next {fuel : Nat} {env : Env} {f f' : Frame} {s s' : σ} {op : Opcode}
    (h : Step P handle ⟨fuel + 1, env, f, s⟩ c) (hop : op ∉ subOpcodes)
    (hfetch : fetch env f = some op)
    (hrun : run handle (dispatch P (runLoop P fuel) op env (f.pay op)) s = (.ok () f', s')) :
    c = ⟨fuel, env, f', s'⟩ := by
  cases h with
  | next hfetch' hrun' =>
    cases hfetch.symm.trans hfetch'
    rw [hrun] at hrun'
    cases hrun'
    rfl
  | @sub _ _ _ _ _ _ _ _ sub hfetch' _ =>
    rw [Option.some.inj (hfetch.symm.trans hfetch')] at hop
    exact absurd sub.opcode_mem hop

theorem Point.Step.fetch_ne_none (h : Step P handle c d) : fetch c.env c.frame ≠ none := by
  cases h with
  | next hfetch _ | sub hfetch _ => simp [hfetch]

theorem reaches_cases {e : Point σ} (h : Reaches P handle c d)
    (hstep : ∀ c', Step P handle c c' → c' = e) : d = c ∨ Reaches P handle e d := by
  rcases Relation.ReflTransGen.cases_head h with rfl | ⟨c', hfirst, hrest⟩
  · exact .inl rfl
  · exact .inr (hstep c' hfirst ▸ hrest)

end

def contextOf (bytecode : Bytes) : ZvmContext :=
  { callingEnv.ctx with bytecode := bytecode, gasLimit := 1000 }

def outcomeOf (bytecode : Bytes) : Halt × Frame :=
  (run handle (runLoop noPrecompiles 10 (new (contextOf bytecode) 0)
    (Frame.new 1000 [] [])) (calleeHost [])).1

/-- `PUSH0 MLOAD`. -/
def loadCode : Bytes := [0x5f, 0x51]

theorem loadCode_fits (d : Point (ProductionZvmHost StateView)) (h : Reaches noPrecompiles handle
      ⟨10, new (contextOf loadCode) 0, Frame.new 1000 [] [], calleeHost []⟩ d) : d.Fits := by
  rcases reaches_cases h fun _ hstep => Step.eq_next hstep (show Opcode.PUSH0 ∉ subOpcodes by decide) rfl rfl with
    rfl | h
  · rintro op ⟨⟩ a ha
    cases ha
  rcases reaches_cases h fun _ hstep => Step.eq_next hstep (show Opcode.MLOAD ∉ subOpcodes by decide) rfl rfl with
    rfl | h
  · rintro op ⟨⟩ a ha
    obtain rfl := List.mem_singleton.mp ha
    exact Access.fits_of_words_lt rfl (by decide) (by decide) ⟨rfl, by decide⟩
  rcases Relation.ReflTransGen.cases_head h with rfl | ⟨_, hstep, _⟩
  · rintro op ⟨⟩
  · exact absurd rfl hstep.fetch_ne_none

/-- A word is loaded from memory that was paid for. -/
theorem loadCode_paid : (outcomeOf loadCode).1 ≠ .panic ∧
      memoryPrice (memoryWords (outcomeOf loadCode).2) ≤ 1000 - (outcomeOf loadCode).2.gas :=
  (memory_safe noPrecompiles handle).1 (contextOf loadCode) 10 (calleeHost []) _
    loadCode_fits .refl

/-- `PUSH8 0xffffffffffffffff MLOAD`. -/
def farCode : Bytes := [0x67, 0xff, 0xff, 0xff, 0xff, 0xff, 0xff, 0xff, 0xff, 0x51]

/-- `PUSH2 4096 PUSH0 PAYID`. -/
def longNameCode : Bytes := [0x61, 0x10, 0x00, 0x5f, 0xc0]

def longNameFrame : Frame := { Frame.new 995 [] [] with stack := [0, 4096], pc := 4 }

theorem longName_start (s : ProductionZvmHost StateView) :
    run handle (runLoop noPrecompiles 10 (new (contextOf longNameCode) 0)
      (Frame.new 1000 [] [])) s =
    run handle (runLoop noPrecompiles (6 + 2) (new (contextOf longNameCode) 0)
      longNameFrame) s := by
  have hlength : run handle (dispatch noPrecompiles (runLoop noPrecompiles 9)
      (.PUSH 1) (new (contextOf longNameCode) 0) ((Frame.new 1000 [] []).pay (.PUSH 1))) s =
      (.ok () { Frame.new 997 [] [] with stack := [4096], pc := 3 }, s) := rfl
  have hpointer : run handle (dispatch noPrecompiles (runLoop noPrecompiles 8)
      .PUSH0 (new (contextOf longNameCode) 0)
      (({ Frame.new 997 [] [] with stack := [4096], pc := 3 } : Frame).pay .PUSH0)) s =
      (.ok () longNameFrame, s) := rfl
  rw [run_next (by decide) hlength, run_next (by decide) hpointer]

theorem outcomeOf_eq (bytecode : Bytes) : outcomeOf bytecode =
    (run handle (runLoop noPrecompiles 10 (new (contextOf bytecode) 0)
    (Frame.new 1000 [] [])) (calleeHost [])).1 := rfl

theorem longName_outcome : ∃ halt f, outcomeOf longNameCode = (halt, f) ∧ halt ≠ .panic ∧
    memoryWords f = 128 ∧ f.gas = 795 := by
  have hfetch : fetch (new (contextOf longNameCode) 0) longNameFrame = some .PAYID := by decide
  generalize henv : new (contextOf longNameCode) 0 = env at hfetch
  have hpops : payid env (longNameFrame.pay .PAYID) = (readString (operand 0) (operand 4096) >>=
      fun payId => Host.resolvePayId payId >>= fun reply => pushAddress (reply.getD 0)) env
        { longNameFrame.pay .PAYID with stack := [] } :=
    (bind_of_ret (pops_popU64.cons env (longNameFrame.pay .PAYID) 0 [4096] rfl) _).trans
      (bind_of_ret (pops_popU64.cons env { longNameFrame.pay .PAYID with stack := [4096] } 4096 []
        rfl) _)
  obtain ⟨bytes, hslice⟩ := readSlice_grows (f := { longNameFrame.pay .PAYID with stack := [] })
    env rfl (show operand 0 + operand 4096 + 31 < u64Bound by decide) (by decide)
  rw [show windowWords (operand 0) (operand 4096) = 128 by decide] at hslice
  rw [outcomeOf_eq, longName_start, henv]
  rcases readString_cases hslice with hstring | hstring
  · have hpayid := hpops.trans (bind_of_ret hstring _)
    obtain ⟨word, s, hrun⟩ : ∃ word s, run handle (payid env (longNameFrame.pay .PAYID))
        (calleeHost []) = (.ok () { (longNameFrame.pay .PAYID).grow 128 with stack := [word] }, s) := by
      rw [hpayid]
      exact ⟨_, _, rfl⟩
    have hd : run handle (dispatch noPrecompiles (runLoop noPrecompiles 7) .PAYID env
        (longNameFrame.pay .PAYID)) (calleeHost []) =
          (.ok () { (longNameFrame.pay .PAYID).grow 128 with stack := [word], pc := 5 }, s) :=
      (run_bind_ok (run_bind_ok hrun)).trans rfl
    rw [run_next hfetch hd, ← henv]
    exact ⟨_, _, rfl, nofun, memoryWords_grow rfl 128, rfl⟩
  · have hrun := congrArg (run handle · (calleeHost [])) (hpops.trans (bind_of_error hstring _))
    have hd : run handle (dispatch noPrecompiles (runLoop noPrecompiles 7) .PAYID env
        (longNameFrame.pay .PAYID)) (calleeHost []) = _ := run_bind_error (run_bind_error hrun)
    rw [runLoop_of_fetch hfetch, run_bind, hd]
    exact ⟨_, _, rfl, nofun, memoryWords_grow rfl 128, rfl⟩

/-- A load from the end of the address space panics. A string of 4096 bytes is read for 205
gas, while the 128 words of memory that it takes are priced at 416. -/
theorem unpaid_memory : (outcomeOf farCode).1 = .panic ∧ (outcomeOf longNameCode).1 ≠ .panic ∧
    memoryPrice (memoryWords (outcomeOf longNameCode).2) = 416 ∧
    1000 - (outcomeOf longNameCode).2.gas = 205 := by
  obtain ⟨halt, f, hrun, hpanic, hwords, hgas⟩ := longName_outcome
  refine ⟨by decide +kernel, ?_⟩
  rw [hrun]
  refine ⟨hpanic, ?_, ?_⟩
  · rw [hwords]
    decide
  · rw [hgas]

end ZbxChain.Zvm

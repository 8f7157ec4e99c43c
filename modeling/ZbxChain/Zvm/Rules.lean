import ZbxChain.Lib.Except
import ZbxChain.Zvm.Interpreter

/-!
# Rules for steps of a frame

Two ways to speak about a step. `Spec` is about every host: within `Bounds`, the step asks only
what it may, the gas of the frame does not grow, and what it returns has a property.
-/

namespace ZbxChain.Zvm

open FrameM Interaction FrameM

variable {α β : Type}

/-! ## For every kind of step -/

/-- A property of steps that is proved along `bind`, and that the steps have which neither change
the size of memory nor add gas. -/
structure Plain (S : ∀ {α : Type}, FrameM α → Prop) : Prop where
  bind : ∀ {α β : Type} {x : FrameM α} {k : α → FrameM β}, S x → (∀ a, S (k a)) → S (x >>= k)
  pure : ∀ {α : Type} (a : α), S (Pure.pure a)
  fail : ∀ {α : Type} (e : ZvmError), S (FrameM.fail e : FrameM α)
  get : S FrameM.get
  modify : ∀ {g : Frame → Frame},
    (∀ f, (g f).memory.length = f.memory.length ∧ (g f).gas ≤ f.gas) → S (FrameM.modify g)
  env : ∀ {α : Type} {k : Env → FrameM α}, (∀ env, S (k env)) → S (FrameM.env >>= k)

namespace Plain

variable {S : ∀ {α : Type}, FrameM α → Prop}

theorem ite (_ : Plain S) {c : Prop} [Decidable c] {x y : FrameM α} (hx : S x) (hy : S y) :
    S (if c then x else y) := by
  by_cases hc : c
  · rwa [if_pos hc]
  · rwa [if_neg hc]

variable (h : Plain S)

include h

theorem bind_modify {g : Frame → Frame} {x : FrameM α}
    (hg : ∀ f, (g f).memory.length = f.memory.length ∧ (g f).gas ≤ f.gas) (hx : S x) :
    S (FrameM.modify g >>= fun _ => x) :=
  h.bind (h.modify hg) fun _ => hx

theorem push (w : H256) : S (push w) :=
  h.bind h.get fun _ => h.ite (h.fail _) (h.modify fun _ => ⟨rfl, le_rfl⟩)

theorem pushNat (n : Nat) : S (pushNat n) := h.push _

theorem pushAddress (addr : Address) : S (pushAddress addr) := h.push _

theorem pushBool (b : Bool) : S (pushBool b) := h.push _

theorem pop : S pop := by
  refine h.bind h.get fun f => ?_
  cases f.stack with
  | nil => exact h.fail _
  | cons w rest => exact h.bind_modify (fun _ => ⟨rfl, le_rfl⟩) (h.pure w)

theorem popU64 : S popU64 := h.bind h.pop fun _ => h.pure _

theorem popU128 : S popU128 := h.bind h.pop fun _ => h.pure _

theorem popAddress : S popAddress := h.bind h.pop fun _ => h.pure _

theorem popTopics (n : Nat) : S (popTopics n) := by
  induction n with
  | zero => exact h.pure _
  | succ n ih => exact h.bind h.pop fun _ => h.bind ih fun _ => h.pure _

theorem dup (n : Nat) : S (dup n) := by
  refine h.bind h.get fun f => ?_
  cases f.stack[n - 1]? with
  | none => exact h.fail _
  | some w => exact h.push w

theorem swap (n : Nat) : S (swap n) := by
  refine h.bind h.get fun f => ?_
  cases f.stack with
  | nil => exact h.fail _
  | cons top rest =>
    dsimp only
    cases rest[n - 1]? with
    | none => exact h.fail _
    | some w => exact h.modify fun _ => ⟨rfl, le_rfl⟩

theorem chargeGas (amount : Nat) : S (chargeGas amount) := by
  refine h.bind h.get fun f => h.ite ?_ (h.modify fun _ => ⟨rfl, Nat.sub_le _ _⟩)
  exact h.bind_modify (fun _ => ⟨rfl, Nat.zero_le _⟩) (h.fail _)

theorem accessAddress (addr : Address) : S (accessAddress addr) := by
  refine h.bind h.get fun f => h.ite (h.chargeGas _) ?_
  exact h.bind_modify (fun _ => ⟨rfl, le_rfl⟩) (h.chargeGas _)

theorem accessSlot (slot : Address × H256) (coldCost : Nat) : S (accessSlot slot coldCost) := by
  refine h.bind h.get fun f => h.ite (h.chargeGas _) ?_
  exact h.bind_modify (fun _ => ⟨rfl, le_rfl⟩) (h.chargeGas _)

theorem setReturnData (data : Bytes) : S (setReturnData data) :=
  h.modify fun _ => ⟨rfl, le_rfl⟩

theorem clearReturnData : S clearReturnData := h.setReturnData []

theorem requireNotStatic : S requireNotStatic := h.env fun _ => h.ite (h.fail _) (h.pure _)

theorem unaryOp (g : H256 → H256) : S (unaryOp g) := h.bind h.pop fun _ => h.push _

theorem binaryOp (g : H256 → H256 → H256) : S (binaryOp g) :=
  h.bind h.pop fun _ => h.bind h.pop fun _ => h.push _

theorem ternaryOp (g : H256 → H256 → H256 → H256) : S (ternaryOp g) :=
  h.bind h.pop fun _ => h.bind h.pop fun _ => h.bind h.pop fun _ => h.push _

theorem compareOp (g : H256 → H256 → Bool) : S (compareOp g) :=
  h.bind h.pop fun _ => h.bind h.pop fun _ => h.pushBool _

theorem exp : S exp := by
  refine h.bind h.pop fun base => h.bind h.pop fun exponent => ?_
  exact h.bind (h.chargeGas _) fun _ => h.push _

theorem calldataload : S calldataload :=
  h.bind h.pop fun _ => h.env fun _ => h.ite (h.push _) (h.push _)

theorem pushOperand (n : Nat) : S (pushOperand n) := by
  refine h.env fun env => h.bind h.get fun f => h.ite (h.fail _) ?_
  exact h.bind (h.push _) fun _ => h.modify fun _ => ⟨rfl, le_rfl⟩

theorem queryAccount {query : Address → FrameM H256} (hquery : ∀ addr, S (query addr)) :
    S (queryAccount query) := by
  refine h.bind h.popAddress fun addr => h.bind (h.accessAddress addr) fun _ => ?_
  exact h.bind (hquery addr) fun _ => h.push _

theorem jumpTo (dest : Nat) : S (jumpTo dest) := by
  refine h.env fun env => h.ite ?_ (h.fail _)
  exact h.bind_modify (fun _ => ⟨rfl, le_rfl⟩) (h.pure _)

theorem jumpi : S jumpi :=
  h.bind h.popU64 fun dest => h.bind h.pop fun _ => h.ite (h.pure _) (h.jumpTo dest)

end Plain

/-! ## For every host -/

structure Bounds where
  /-- The frames that are considered. -/
  envs : Env → Prop
  /-- They have less gas than this when the step starts. -/
  gas : Nat
  /-- The requests that the step may make. -/
  asks : Env → Request → Prop
  /-- Whether a sub-frame may end because its recursion bound was too small. -/
  mayRunOut : Prop

def Bounds.restrict (B : Bounds) (p : Env → Prop) : Bounds :=
  { B with envs := fun env => B.envs env ∧ p env }

/-- How a step that starts with `gas` may end: with a value in `Q` and the gas that is set
aside with it, or halted. -/
def Ended (B : Bounds) (reserve : α → Nat) (Q : α → Prop) (gas : Nat) :
    EStateM.Result Halt Frame α → Prop
  | .ok a f => f.gas + reserve a ≤ gas ∧ Q a
  | .error h f => f.gas ≤ gas ∧ (h = .outOfFuel → B.mayRunOut)

structure Spec (B : Bounds) (x : FrameM α) (reserve : α → Nat) (Q : Env → α → Prop) : Prop where
  ensures : ∀ env f, B.envs env → f.gas < B.gas →
    (x env f).Ensures (B.asks env) (Ended B reserve (Q env) f.gas)

abbrev Steps (B : Bounds) (x : FrameM α) : Prop := Spec B x (fun _ => 0) fun _ _ => True

section

variable {B : Bounds} {reserve : α → Nat} {Q : Env → α → Prop} {r : EStateM.Result Halt Frame α}
  {x : FrameM α} {gas : Nat} {k : α → FrameM β} {P : α → Prop}

theorem Ended.mono {gas' : Nat} (h : Ended B reserve P gas r) (hle : gas ≤ gas') :
    Ended B reserve P gas' r := by
  cases r with
  | ok a f | error e f => exact ⟨Nat.le_trans h.1 hle, h.2⟩

theorem Ended.finalState_gas_le (h : Ended B reserve P gas r) : (finalState r).gas ≤ gas := by
  cases r with
  | ok a f => exact Nat.le_trans (Nat.le_add_right _ _) h.1
  | error e f => exact h.1

theorem Spec.bind {reserve' : β → Nat} {Q' : Env → β → Prop} (hx : Spec B x reserve Q)
    (hk : ∀ env f a, B.envs env → f.gas + reserve a < B.gas → Q env a →
      (k a env f).Ensures (B.asks env) (Ended B reserve' (Q' env) (f.gas + reserve a))) :
    Spec B (x >>= k) reserve' Q' := by
  refine ⟨fun env f henv hgas => (hx.ensures env f henv hgas).bind fun r hr => ?_⟩
  cases r with
  | ok a f' =>
    have hrest := hk env f' a henv (Nat.lt_of_le_of_lt hr.1 hgas) hr.2
    exact hrest.mono (fun _ h => h) fun _ h => h.mono hr.1
  | error e f' => exact hr

theorem Steps.bind {reserve : β → Nat} {Q : Env → β → Prop} (hx : Steps B x)
    (hk : ∀ a, Spec B (k a) reserve Q) : Spec B (x >>= k) reserve Q :=
  Spec.bind hx fun env f a henv hgas _ => (hk a).ensures env f henv hgas

theorem spec_pure {a : α} (hreserve : reserve a = 0) (hQ : ∀ env, B.envs env → Q env a) :
    Spec B (pure a) reserve Q := by
  refine ⟨fun env f henv _ => ⟨?_, hQ env henv⟩⟩
  rw [hreserve]
  exact le_rfl

theorem steps_pure (a : α) : Steps B (pure a : FrameM α) := spec_pure rfl fun _ _ => trivial

theorem spec_halt {h : Halt} (hne : h ≠ .outOfFuel) : Spec B (halt h : FrameM α) reserve Q :=
  ⟨fun _ _ _ _ => ⟨le_rfl, fun he => absurd he hne⟩⟩

theorem spec_fail (e : ZvmError) : Spec B (fail e : FrameM α) reserve Q := spec_halt nofun

theorem spec_panic : Spec B (panic : FrameM α) reserve Q := spec_halt nofun

theorem steps_get : Steps B get := ⟨fun _ _ _ _ => ⟨le_rfl, trivial⟩⟩

theorem steps_modify {g : Frame → Frame} (h : ∀ f, (g f).gas ≤ f.gas) :
    Steps B (modify g) := ⟨fun _ f _ _ => ⟨h f, trivial⟩⟩

theorem steps_host {c : HostCall} (h : ∀ env, B.envs env → B.asks env ⟨env.ctx.contract, c⟩) :
    Steps B (host c) :=
  ⟨fun env _ henv _ => ⟨h env henv, fun _ => ⟨le_rfl, trivial⟩⟩⟩

theorem spec_bind_env {k : Env → FrameM α}
    (h : ∀ env, Spec (B.restrict (· = env)) (k env) reserve Q) : Spec B (env >>= k) reserve Q :=
  ⟨fun env f henv hgas => (h env).ensures env f ⟨henv, rfl⟩ hgas⟩

theorem spec_ite {c : Prop} [Decidable c] {y : FrameM α} (hx : c → Spec B x reserve Q)
    (hy : ¬ c → Spec B y reserve Q) : Spec B (if c then x else y) reserve Q := by
  by_cases h : c
  · rw [if_pos h]
    exact hx h
  · rw [if_neg h]
    exact hy h

theorem spec_bind_check {c : Env → Prop} [DecidablePred c] {e : ZvmError}
    (h : Spec (B.restrict (¬ c ·)) x reserve Q) :
    Spec B ((env >>= fun env => if c env then fail e else pure ()) >>= fun _ => x) reserve Q := by
  refine ⟨fun env f henv hgas => ?_⟩
  have hcheck : ((FrameM.env >>= fun env => if c env then fail e else pure ()) >>= fun _ => x)
      env f = ((if c env then fail e else pure ()) >>= fun _ => x) env f := rfl
  rw [hcheck]
  by_cases hc : c env
  · rw [if_pos hc]
    exact ⟨le_rfl, nofun⟩
  · rw [if_neg hc]
    exact h.ensures env f ⟨henv, hc⟩ hgas

theorem steps : Plain (Steps B) where
  bind := Steps.bind
  pure := steps_pure
  fail _ := spec_fail _
  get := steps_get
  modify h := steps_modify fun f => (h f).2
  env h := spec_bind_env fun env => ⟨fun e f he hgas => (h env).ensures e f he.1 hgas⟩

/-! ### Gas -/

theorem steps_chargeMemExpansion (newSize : Nat) : Steps B (chargeMemExpansion newSize) := by
  refine spec_ite (fun _ => steps_pure _) fun _ => steps_get.bind fun f => ?_
  exact spec_ite (fun _ => steps_pure _) fun _ => steps.chargeGas _

theorem steps_chargeWindow (off len : Nat) : Steps B (chargeWindow off len) :=
  steps_chargeMemExpansion _

/-! ### Memory -/

theorem steps_setMemory (memory : Bytes) : Steps B (setMemory memory) :=
  steps_modify fun _ => le_rfl

theorem steps_resize (size : Nat) : Steps B (resize size) := by
  refine steps_get.bind fun f => spec_ite (fun _ => ?_) fun _ => steps_pure _
  exact spec_ite (fun _ => spec_panic) fun _ => steps_setMemory _

theorem steps_slice (start stop : Nat) : Steps B (slice start stop) :=
  steps_get.bind fun _ => spec_ite (fun _ => steps_pure _) fun _ => spec_panic

theorem steps_overwrite (start stop : Nat) (data : Bytes) : Steps B (overwrite start stop data) :=
  steps_get.bind fun _ => spec_ite (fun _ => steps_setMemory _) fun _ => spec_panic

variable (offset : Nat)

theorem steps_readSlice (len : Nat) : Steps B (readSlice offset len) :=
  (steps_resize _).bind fun _ => steps_slice _ _

theorem steps_load : Steps B (load offset) :=
  (steps_readSlice _ _).bind fun _ => steps_pure _

theorem steps_store (word : H256) : Steps B (store offset word) :=
  (steps_resize _).bind fun _ => steps_overwrite _ _ _

theorem steps_store8 (byte : UInt8) : Steps B (store8 offset byte) := by
  refine (steps_resize _).bind fun _ => steps_get.bind fun f => ?_
  exact spec_ite (fun _ => steps_setMemory _) fun _ => spec_panic

variable (src : Bytes)

theorem steps_writeSlice : Steps B (writeSlice offset src) := by
  refine spec_ite (fun _ => steps_pure _) fun _ => ?_
  exact (steps_resize _).bind fun _ => steps_overwrite _ _ _

theorem steps_memoryCopy (dst src len : Nat) : Steps B (memoryCopy dst src len) := by
  refine spec_ite (fun _ => steps_pure _) fun _ => (steps_resize _).bind fun _ => ?_
  refine (steps_slice _ _).bind fun bytes => steps_get.bind fun f => ?_
  exact spec_ite (fun _ => steps_setMemory _) fun _ => spec_panic

theorem steps_readString (len : Nat) : Steps B (readString offset len) := by
  refine (steps_readSlice _ _).bind fun bytes => ?_
  exact spec_ite (fun _ => steps_pure _) fun _ => spec_fail _

theorem steps_storeBytes (data : Bytes) : Steps B (storeBytes offset data) := by
  induction data generalizing offset with
  | nil => exact steps_pure _
  | cons b rest ih => exact (steps_store8 _ _).bind fun _ => ih _

theorem steps_paddedCopy (srcOff len : Nat) : Steps B (paddedCopy src srcOff len) :=
  spec_ite (fun _ => spec_panic) fun _ => steps_pure _

end

def Runs (A : Env → Request → Prop) (x : FrameM α) : Prop :=
  ∀ env f, (x env f).Ensures (A env) fun r => (finalState r).gas ≤ f.gas

variable {x : FrameM α}

theorem runs_of_steps {A : Env → Request → Prop}
    (h : ∀ gas, Steps ⟨fun _ => True, gas, A, True⟩ x) : Runs A x := by
  intro env f
  have hstep := (h (f.gas + 1)).ensures env f trivial (Nat.lt_succ_self _)
  exact hstep.mono (fun _ hq => hq) fun r hr => hr.finalState_gas_le

/-! ## For a given host -/

def Silent (x : FrameM α) : Prop := ∀ env f, ∃ r, x env f = .ret r

theorem Runs.silent (h : Runs (fun _ _ => False) x) : Silent x := by
  intro env f
  have hx := h env f
  cases hr : x env f with
  | ret r => exact ⟨r, rfl⟩
  | ask q next =>
    rw [hr] at hx
    exact hx.1.elim

theorem silent_of_steps (h : ∀ gas, Steps ⟨fun _ => True, gas, fun _ _ => False, True⟩ x) :
    Silent x :=
  (runs_of_steps h).silent

theorem silent_bind {k : α → FrameM β} (hx : Silent x) (hk : ∀ a, Silent (k a)) :
    Silent (x >>= k) := by
  intro env f
  obtain ⟨r, hr⟩ := hx env f
  show ∃ r', FrameM.bind x k env f = .ret r'
  unfold FrameM.bind
  rw [hr]
  cases r with
  | ok a f' => exact hk a env f'
  | error e f' => exact ⟨_, rfl⟩

theorem silent_modify (g : Frame → Frame) : Silent (modify g) := fun _ _ => ⟨_, rfl⟩

variable {σ : Type} {handle : (q : Request) → σ → q.call.Reply × σ} {env : Env} {s s' : σ}
  {f f' : Frame} {x : FrameM α} {a : α} {k : α → FrameM β} {P : β → σ → Prop}

theorem run_of_silent (h : Silent x) (f : Frame) : (run handle (x env f) s).2 = s := by
  obtain ⟨r, hr⟩ := h env f
  rw [hr]
  rfl

theorem run_bind_ok (h : run handle (x env f) s = (.ok a f', s')) :
    run handle ((x >>= k) env f) s = run handle (k a env f') s' := by
  show run handle (FrameM.bind x k env f) s = _
  unfold FrameM.bind
  rw [run_bind, h]

theorem run_bind_error {e : Halt} (h : run handle (x env f) s = (.error e f', s')) :
    run handle ((x >>= k) env f) s = (.error e f', s') := by
  show run handle (FrameM.bind x k env f) s = _
  unfold FrameM.bind
  rw [run_bind, h]
  rfl

variable (handle env) in
def Post (s : σ) (x : FrameM α) (Q : α → σ → Prop) : Prop :=
  ∀ f a f' s', run handle (x env f) s = (.ok a f', s') → Q a s'

variable {Q : α → σ → Prop}

theorem post_pure (h : Q a s) : Post handle env s (pure a) Q := by
  intro f b f' s' hrun
  cases hrun
  exact h

theorem post_halt (e : Halt) : Post handle env s (halt e : FrameM α) Q := by
  intro f b f' s' hrun
  cases hrun

theorem post_silent (hx : Silent x) (h : ∀ a, Q a s) : Post handle env s x Q := by
  intro f a f' s' hrun
  have hs : (run handle (x env f) s).2 = s := run_of_silent hx f
  rw [hrun] at hs
  cases hs
  exact h a

theorem post_bind (hx : Post handle env s x Q) (hk : ∀ a s', Q a s' → Post handle env s' (k a) P) :
    Post handle env s (x >>= k) P := by
  intro f b f' s' hrun
  cases hr : run handle (x env f) s with
  | mk r s₁ =>
    cases r with
    | ok a f₁ =>
      rw [run_bind_ok hr] at hrun
      exact hk a s₁ (hx f a f₁ s₁ hr) f₁ b f' s' hrun
    | error e f₁ =>
      rw [run_bind_error hr] at hrun
      cases hrun

theorem post_bind_silent (hx : Silent x) (hk : ∀ a, Post handle env s (k a) P) :
    Post handle env s (x >>= k) P := by
  refine post_bind (Q := fun _ s' => s' = s) (post_silent hx fun _ => rfl) ?_
  intro a s' hs
  subst hs
  exact hk a

theorem post_bind_steps (hx : ∀ gas, Steps ⟨fun _ => True, gas, fun _ _ => False, True⟩ x)
    (hk : ∀ a, Post handle env s (k a) P) : Post handle env s (x >>= k) P :=
  post_bind_silent (silent_of_steps hx) hk

theorem post_bind_env {k : Env → FrameM β} (h : Post handle env s (k env) P) :
    Post handle env s (FrameM.env >>= k) P :=
  fun f b f' s' hrun => h f b f' s' hrun

theorem post_bind_host {c : HostCall} {k : c.Reply → FrameM β}
    (h : Post handle env (handle ⟨env.ctx.contract, c⟩ s).2
      (k (handle ⟨env.ctx.contract, c⟩ s).1) P) : Post handle env s (host c >>= k) P :=
  fun f b f' s' hrun => h f b f' s' hrun

theorem post_ite {c : Prop} [Decidable c] {y : FrameM α} (hx : c → Post handle env s x Q)
    (hy : ¬ c → Post handle env s y Q) : Post handle env s (if c then x else y) Q := by
  by_cases h : c
  · rw [if_pos h]
    exact hx h
  · rw [if_neg h]
    exact hy h

end ZbxChain.Zvm

import ZbxChain.Zvm.Memory
import ZbxChain.Zvm.Instructions

/-!
# Instructions and memory

Which instructions keep memory paid for. A step that leaves memory alone does (`Tame`), and an
instruction with windows does if they fit the frame (`keeps_mload` and so on).
-/

namespace ZbxChain.Zvm

open FrameM Interaction Access List FrameM

/-! ## Steps that leave memory alone -/

variable {α : Type} (limit : Nat)

def NoPanic : EStateM.Result Halt Frame α → Prop
  | .ok _ _ => True
  | .error h _ => h ≠ .panic

structure Tame {α : Type} (x : FrameM α) : Prop where
  ensures : ∀ env f, (x env f).Ensures (fun _ => True) fun r => NoPanic r ∧ Poorer f (finalState r)

section

variable {α β : Type} {g : Frame → Frame} {x : FrameM α}

theorem Tame.bind {k : α → FrameM β} (hx : Tame x) (hk : ∀ a, Tame (k a)) : Tame (x >>= k) := by
  refine ⟨fun env f => (hx.ensures env f).bind fun r hr => ?_⟩
  cases r with
  | ok a f' =>
    refine ((hk a).ensures env f').mono (fun _ _ => trivial) fun r' hr' => ?_
    exact ⟨hr'.1, hr.2.trans hr'.2⟩
  | error e f' => exact hr

theorem tame_halt {h : Halt} (hne : h ≠ .panic) : Tame (halt h : FrameM α) :=
  ⟨fun _ f => ⟨hne, .refl f⟩⟩

theorem tame_host (c : HostCall) : Tame (host c) :=
  ⟨fun _ f => ⟨trivial, fun _ => ⟨trivial, .refl f⟩⟩⟩

theorem tame : Plain Tame where
  bind := Tame.bind
  pure _ := ⟨fun _ f => ⟨trivial, .refl f⟩⟩
  fail _ := tame_halt nofun
  get := ⟨fun _ f => ⟨trivial, .refl f⟩⟩
  modify h := ⟨fun _ f => ⟨trivial, (h f).1, (h f).2⟩⟩
  env h := ⟨fun env f => (h env).ensures env f⟩

theorem tame_transfer (src dst : Address) (amount : Nat) : Tame (Host.transfer src dst amount) := by
  refine (tame_host _).bind fun reply => ?_
  cases reply with
  | ok _ => exact tame.pure _
  | error e => exact tame.fail e

/-! ### Instructions -/

theorem tame_sload : Tame sload := by
  refine tame.pop.bind fun key => tame.env fun env => (tame.accessSlot _ _).bind fun _ => ?_
  exact (tame_host _).bind fun _ => tame.push _

theorem tame_sstore : Tame sstore := by
  refine tame.requireNotStatic.bind fun _ => tame.pop.bind fun key => tame.pop.bind fun value => ?_
  exact tame.env fun env => (tame.accessSlot _ _).bind fun _ => tame_host _

theorem tame_tload : Tame tload :=
  tame.pop.bind fun _ => tame.env fun _ => (tame_host _).bind fun _ => tame.push _

theorem tame_tstore : Tame tstore := by
  refine tame.requireNotStatic.bind fun _ => tame.pop.bind fun key => tame.pop.bind fun value => ?_
  exact tame.env fun env => tame_host _

theorem tame_selfdestruct : Tame selfdestruct := by
  refine tame.requireNotStatic.bind fun _ => tame.popAddress.bind fun beneficiary => ?_
  exact tame.env fun env => (tame_host _).bind fun _ => tame_halt nofun

theorem tame_zbxburn : Tame zbxburn := by
  refine tame.requireNotStatic.bind fun _ => tame.popU128.bind fun amount => ?_
  refine tame.env fun env => (tame_host _).bind fun reply => ?_
  cases reply with
  | ok _ => exact tame.pure _
  | error e => exact tame.fail e

end

/-! ## Steps that keep memory paid for -/

/-- The end of a step that keeps memory paid for and returns in `Q`. -/
def Kept (Q : α → Frame → Prop) : EStateM.Result Halt Frame α → Prop
  | .ok a f => Q a f
  | .error h f => h ≠ .panic ∧ Paid limit f

/-- From the frame, whatever the host answers, the step does not panic, keeps memory paid
for if it halts, and returns in `Q`. -/
def Keeps (x : FrameM α) (Q : α → Frame → Prop) (env : Env) (f : Frame) : Prop :=
  (x env f).Ensures (fun _ => True) (Kept limit Q)

abbrev KeepsPaid (x : FrameM α) (env : Env) (f : Frame) : Prop :=
  Keeps limit x (fun _ => Paid limit) env f

section

variable {α β : Type} {limit off len : Nat} {env : Env} {f f' : Frame} {Q : α → Frame → Prop}
  {Q' : β → Frame → Prop} {x : FrameM α} {g : H256 → α} {e : Halt} {k : α → FrameM β}

theorem bind_of_error (h : x env f = .ret (.error e f')) (k : α → FrameM β) :
    (x >>= k) env f = .ret (.error e f') := by
  show FrameM.bind x k env f = _
  unfold FrameM.bind
  rw [h]
  rfl

theorem keeps_of_tame (hx : Tame x) (h : Paid limit f) : KeepsPaid limit x env f := by
  refine (hx.ensures env f).mono (fun _ _ => trivial) fun r hr => ?_
  cases r with
  | ok a f' => exact h.poorer hr.2
  | error e f' => exact ⟨hr.1, h.poorer hr.2⟩

theorem keeps_bind_tame (hx : Tame x) (hpaid : Paid limit f)
    (h : ∀ a f', Poorer f f' → Paid limit f' → Keeps limit (k a) Q' env f') :
    Keeps limit (x >>= k) Q' env f := by
  refine (hx.ensures env f).bind fun r hr => ?_
  cases r with
  | ok a f' => exact h a f' hr.2 (hpaid.poorer hr.2)
  | error e f' => exact ⟨hr.1, hpaid.poorer hr.2⟩

theorem keeps_covered_tame (hx : Tame x) (hcovered : Covered limit off len f)
    (h : ∀ a f', Covered limit off len f' → Keeps limit (k a) Q' env f') :
    Keeps limit (x >>= k) Q' env f :=
  keeps_bind_tame hx hcovered.toPaid fun a f' hle _ => h a f' (hcovered.poorer hle)

theorem keeps_bind (hx : Keeps limit x Q env f) (h : ∀ a f', Q a f' → Keeps limit (k a) Q' env f') :
    Keeps limit (x >>= k) Q' env f := by
  refine Ensures.bind hx fun r hr => ?_
  cases r with
  | ok a f' => exact h a f' hr
  | error e f' => exact hr

theorem keeps_of_ret {r : EStateM.Result Halt Frame α} (hx : x env f = .ret r)
    (h : Kept limit Q r) : Keeps limit x Q env f := by
  unfold Keeps
  rw [hx]
  exact h

theorem keeps_bind_ret {a : α} (hx : x env f = .ret (.ok a f')) (h : Keeps limit (k a) Q' env f') :
    Keeps limit (x >>= k) Q' env f := by
  unfold Keeps
  rw [bind_of_ret hx]
  exact h

theorem keeps_bind_error (hx : x env f = .ret (.error e f')) (hne : e ≠ .panic)
    (hpaid : Paid limit f') : Keeps limit (x >>= k) Q' env f :=
  keeps_of_ret (bind_of_error hx k) ⟨hne, hpaid⟩

theorem keeps_ite {c : Prop} [Decidable c] {y : FrameM α} (hx : c → Keeps limit x Q env f)
    (hy : ¬ c → Keeps limit y Q env f) : Keeps limit (if c then x else y) Q env f := by
  by_cases h : c
  · rw [if_pos h]
    exact hx h
  · rw [if_neg h]
    exact hy h

theorem keeps_bind_touches (hx : Touches limit off len x env f)
    (h : ∀ a f', Covered limit off len f' → Keeps limit (k a) Q' env f') :
    Keeps limit (x >>= k) Q' env f := by
  obtain ⟨a, f', hrun, hcovered⟩ := hx
  exact keeps_bind_ret hrun (h a f' hcovered)

theorem keeps_of_touches (h : Touches limit off len x env f) : KeepsPaid limit x env f := by
  obtain ⟨a, f', hrun, hcovered⟩ := h
  exact keeps_of_ret hrun hcovered.toPaid

/-- The step takes an operand `g w` from the stack; without one it fails. -/
structure Pops (x : FrameM α) (g : H256 → α) : Prop where
  nil : ∀ env f, f.stack = [] → x env f = .ret (.error (.error .stackUnderflow) f)
  cons : ∀ env f w rest, f.stack = w :: rest → x env f = .ret (.ok (g w) { f with stack := rest })

theorem pops_pop : Pops pop id := by
  constructor
  · intro env f hstack
    cases f
    subst hstack
    rfl
  intro env f w rest hstack
  cases f
  subst hstack
  rfl

theorem Pops.map (h : Pops x g) (g' : α → β) :
    Pops (x >>= fun a => pure (g' a)) (fun w => g' (g w)) where
  nil env f hstack := bind_of_error (h.nil env f hstack) _
  cons env f w rest hstack := bind_of_ret (h.cons env f w rest hstack) _

theorem pops_popU64 : Pops popU64 operand := pops_pop.map fun w => w.toNat % 2 ^ 64

theorem pops_popU128 : Pops popU128 fun w => w.toNat % 2 ^ 128 :=
  pops_pop.map fun w => w.toNat % 2 ^ 128

theorem pops_popAddress : Pops popAddress fun w => w.setWidth 160 :=
  pops_pop.map fun w => w.setWidth 160

theorem keeps_bind_pops (hx : Pops x g) (hpaid : Paid limit f)
    (h : ∀ w rest, f.stack = w :: rest → Keeps limit (k (g w)) Q' env { f with stack := rest }) :
    Keeps limit (x >>= k) Q' env f := by
  cases hstack : f.stack with
  | nil => exact keeps_bind_error (hx.nil env f hstack) nofun hpaid
  | cons w rest => exact keeps_bind_ret (hx.cons env f w rest hstack) (h w rest hstack)

theorem keeps_bind_pops₂ {γ : Type} {y : FrameM β} {g' : H256 → β} {k : α → β → FrameM γ}
    {Q : γ → Frame → Prop} (hx : Pops x g) (hy : Pops y g') (hpaid : Paid limit f)
    (h : ∀ v w rest, f.stack = v :: w :: rest →
      Keeps limit (k (g v) (g' w)) Q env { f with stack := rest }) :
    Keeps limit (x >>= fun a => y >>= fun b => k a b) Q env f := by
  refine keeps_bind_pops hx hpaid fun v rest hstack => ?_
  have hpaid' : Paid limit { f with stack := rest } := hpaid.poorer ⟨rfl, le_rfl⟩
  refine keeps_bind_pops hy hpaid' fun w rest' hrest => ?_
  obtain rfl : rest = w :: rest' := hrest
  exact h v w rest' hstack

theorem chargeWindow_eq (h : off + len + 31 < u64Bound) : chargeWindow off len env f =
      if f.gas < (mk off len true).charge f then
        .ret (.error (.error .outOfGas) { f with gas := 0 })
      else .ret (.ok () { f with gas := f.gas - (mk off len true).charge f }) := by
  have hsat : satU64 (off + len) = off + len := by
    unfold satU64
    omega
  have hcharge : (mk off len true).charge f =
      memoryGasDelta (memoryWords f) (wordCount (off + len)) := by
    rw [wordCount_eq h]
    rfl
  unfold chargeWindow chargeMemExpansion
  rw [hsat, hcharge]
  by_cases hzero : off + len = 0
  · have hdelta : memoryGasDelta (memoryWords f) (wordCount (off + len)) = 0 := by
      rw [hzero]
      exact if_pos (Nat.zero_le _)
    rw [if_pos hzero, hdelta, if_neg (Nat.not_lt_zero _)]
    rfl
  rw [if_neg hzero]
  show (if memoryGasDelta (memoryWords f) (wordCount (off + len)) = 0 then _ else _ :
    FrameM Unit) env f = _
  by_cases hdelta : memoryGasDelta (memoryWords f) (wordCount (off + len)) = 0
  · rw [if_pos hdelta, hdelta, if_neg (Nat.not_lt_zero _)]
    rfl
  rw [if_neg hdelta]
  show (if f.gas < memoryGasDelta (memoryWords f) (wordCount (off + len)) then _ else _ :
    FrameM Unit) env f = _
  split <;> rfl

theorem Access.Fits.covered {charged : Bool} (h : (Access.mk off len charged).Fits limit f)
    (hpaid : Paid limit f) (hgas : ¬ f.gas < (Access.mk off len charged).charge f) :
    Covered limit off len { f with gas := f.gas - (Access.mk off len charged).charge f } := by
  obtain ⟨hvec, hpaid'⟩ := h.paid.resolve_left hgas
  exact ⟨h.noOverflow, hvec, hpaid.aligned, hpaid'⟩

theorem Access.Fits.covered_free (h : (Access.mk off len false).Fits limit f)
    (hpaid : Paid limit f) : Covered limit off len f :=
  h.covered hpaid (Nat.not_lt_zero _)

theorem keeps_chargeWindow (hfits : (mk off len true).Fits limit f) (hpaid : Paid limit f) :
    Keeps limit (chargeWindow off len) (fun _ f' => Covered limit off len f' ∧ Poorer f f')
      env f := by
  have hrun : chargeWindow off len env f = _ := chargeWindow_eq hfits.noOverflow
  by_cases hgas : f.gas < (Access.mk off len true).charge f
  · rw [if_pos hgas] at hrun
    exact keeps_of_ret hrun ⟨nofun, hpaid.poorer ⟨rfl, Nat.zero_le _⟩⟩
  · rw [if_neg hgas] at hrun
    exact keeps_of_ret hrun ⟨hfits.covered hpaid hgas, rfl, Nat.sub_le _ _⟩

theorem keeps_bind_charge {k : Unit → FrameM α} (hfits : (mk off len true).Fits limit f)
    (hpaid : Paid limit f) (hle : Poorer f f')
    (h : ∀ f'', Covered limit off len f'' → Poorer f f'' → Keeps limit (k ()) Q env f'') :
    Keeps limit (chargeWindow off len >>= k) Q env f' :=
  keeps_bind (keeps_chargeWindow (hfits.poorer hle) (hpaid.poorer hle)) fun _ f'' hcharged =>
    h f'' hcharged.1 (hle.trans hcharged.2)

theorem keeps_bind_readSlice {k : Bytes → FrameM α} (hcovered : Covered limit off len f)
    (h : ∀ bytes, Paid limit (f.grow (windowWords off len)) →
      Keeps limit (k bytes) Q env (f.grow (windowWords off len))) :
    Keeps limit (readSlice off len >>= k) Q env f := by
  obtain ⟨bytes, _, hrun⟩ := readSlice_eq env hcovered
  exact keeps_bind_ret hrun (h bytes (hcovered.open (le_rfl)).toPaid)

theorem readString_cases {bytes : Bytes} (h : readSlice off len env f = .ret (.ok bytes f')) :
    readString off len env f = .ret (.ok bytes f') ∨
      readString off len env f = .ret (.error (.error .invalidUtf8) f') := by
  unfold readString
  rw [bind_of_ret h]
  split
  · exact .inl rfl
  · exact .inr rfl

theorem keeps_bind_readString {k : Bytes → FrameM α} (hcovered : Covered limit off len f)
    (h : ∀ bytes, Paid limit (f.grow (windowWords off len)) →
      Keeps limit (k bytes) Q env (f.grow (windowWords off len))) :
    Keeps limit (readString off len >>= k) Q env f := by
  obtain ⟨bytes, _, hrun⟩ := readSlice_eq env hcovered
  have hpaid := (hcovered.open (le_rfl)).toPaid
  rcases readString_cases hrun with hstring | hstring
  · exact keeps_bind_ret hstring (h bytes hpaid)
  · exact keeps_bind_error hstring nofun hpaid

theorem keeps_bind_requireNotStatic {k : Unit → FrameM α} (hpaid : Paid limit f)
    (h : env.ctx.isStatic = false → Keeps limit (k ()) Q env f) :
    Keeps limit (requireNotStatic >>= k) Q env f := by
  cases hstatic : env.ctx.isStatic with
  | true =>
    have hrun : requireNotStatic env f = .ret (.error (.error .staticStateChange) f) := by
      show (if env.ctx.isStatic = true then fail .staticStateChange else pure () :
        FrameM Unit) env f = _
      rw [if_pos hstatic]
      rfl
    exact keeps_bind_error hrun nofun hpaid
  | false =>
    have hrun : requireNotStatic env f = .ret (.ok () f) := by
      show (if env.ctx.isStatic = true then fail .staticStateChange else pure () :
        FrameM Unit) env f = _
      rw [if_neg (by simp [hstatic])]
      rfl
    exact keeps_bind_ret hrun (h hstatic)

end

/-! ## Instructions with windows -/

theorem poorer_stack (f : Frame) (stack : List H256) : Poorer f { f with stack := stack } :=
  ⟨rfl, le_rfl⟩

section

variable {limit len off : Nat} {env : Env} {f : Frame} {isStatic : Bool}

theorem paddedCopy_eq (env : Env) (f : Frame) (src : Bytes) (srcOff : Nat) (h : len < vecBound) :
    ∃ bytes, bytes.length = len ∧ paddedCopy src srcOff len env f = .ret (.ok bytes f) := by
  refine ⟨(src.drop srcOff).take len ++
    replicate (len - ((src.drop srcOff).take len).length) 0, ?_, ?_⟩
  · rw [length_append, length_replicate, length_take]
    omega
  unfold paddedCopy
  rw [if_neg (Nat.not_le.mpr h)]
  rfl

theorem Covered.len_lt (h : Covered limit off len f) : len < vecBound := by
  have hvec := h.vec
  unfold windowWords at hvec
  omega

theorem keeps_copy (h : Covered limit off len f) (src : Bytes) (srcOff : Nat) :
    KeepsPaid limit (paddedCopy src srcOff len >>= writeSlice off) env f := by
  obtain ⟨bytes, hlen, hrun⟩ := paddedCopy_eq env f src srcOff h.len_lt
  exact keeps_bind_ret hrun (keeps_of_touches (touches_writeSlice h (Nat.le_of_eq hlen)))

variable (hpaid : Paid limit f)

include hpaid

theorem keeps_mload (hfits : ∀ a ∈ accesses isStatic .MLOAD f.stack, a.Fits limit f) :
    KeepsPaid limit mload env f := by
  refine keeps_bind_pops pops_popU64 hpaid fun off rest hstack => ?_
  rw [hstack] at hfits
  refine keeps_bind_charge (hfits _ mem_cons_self) hpaid (poorer_stack f rest)
    fun f' hcovered _ => ?_
  obtain ⟨bytes, _, hrun⟩ := readSlice_eq env hcovered
  have hload : load (operand off) env f' = _ := bind_of_ret hrun _
  refine keeps_bind_ret hload (keeps_of_tame (tame.push _) ?_)
  exact (hcovered.open (le_rfl)).toPaid

theorem keeps_mstore (hfits : ∀ a ∈ accesses isStatic .MSTORE f.stack, a.Fits limit f) :
    KeepsPaid limit mstore env f := by
  refine keeps_bind_pops₂ pops_popU64 pops_pop hpaid fun off word rest hstack => ?_
  rw [hstack] at hfits
  exact keeps_bind_charge (hfits _ mem_cons_self) hpaid (poorer_stack f rest)
    fun f' hcovered _ => keeps_of_touches (touches_store hcovered _)

theorem keeps_mstore8 (hfits : ∀ a ∈ accesses isStatic .MSTORE8 f.stack, a.Fits limit f) :
    KeepsPaid limit mstore8 env f := by
  refine keeps_bind_pops₂ pops_popU64 pops_pop hpaid fun off word rest hstack => ?_
  rw [hstack] at hfits
  exact keeps_bind_charge (hfits _ mem_cons_self) hpaid (poorer_stack f rest)
    fun f' hcovered _ => keeps_of_touches (touches_store8 hcovered Nat.zero_lt_one _)

theorem keeps_keccak (hfits : ∀ a ∈ accesses isStatic .KECCAK256 f.stack, a.Fits limit f) :
    KeepsPaid limit keccak env f := by
  refine keeps_bind_pops₂ pops_popU64 pops_popU64 hpaid fun off len rest hstack => ?_
  rw [hstack] at hfits
  have hstart := poorer_stack f rest
  refine keeps_bind_tame (tame.chargeGas _) (hpaid.poorer hstart) fun _ f₁ hle _ => ?_
  refine keeps_bind_charge (hfits _ mem_cons_self) hpaid (hstart.trans hle)
    fun f₂ hcovered _ => keeps_bind_readSlice hcovered fun bytes hpaid₂ => ?_
  exact keeps_of_tame (tame.push _) hpaid₂

theorem keeps_returnWith (status : ExecutionStatus)
    (hfits : ∀ off len rest, f.stack = off :: len :: rest →
      (mk (operand off) (operand len) true).Fits limit f) :
    KeepsPaid limit (returnWith status) env f := by
  refine keeps_bind_pops₂ pops_popU64 pops_popU64 hpaid fun off len rest hstack => ?_
  refine keeps_bind_charge (hfits off len rest hstack) hpaid (poorer_stack f rest)
    fun f' hcovered _ => keeps_bind_readSlice hcovered fun bytes hpaid' => ?_
  exact keeps_of_tame ((tame.setReturnData _).bind fun _ => tame_halt nofun) hpaid'

theorem keeps_emitLog {n : Fin 5} (hstatic : isStatic = env.ctx.isStatic)
    (hfits : ∀ a ∈ accesses isStatic (.LOG n) f.stack, a.Fits limit f) :
    KeepsPaid limit (emitLog n) env f := by
  refine keeps_bind_requireNotStatic hpaid fun hwrites => ?_
  refine keeps_bind_pops₂ pops_popU64 pops_popU64 hpaid fun off len rest hstack => ?_
  rw [hstack, hstatic, hwrites] at hfits
  have hstart := poorer_stack f rest
  refine keeps_bind_tame (tame.chargeGas _) (hpaid.poorer hstart) fun _ f₁ hle _ => ?_
  refine keeps_bind_charge (hfits _ mem_cons_self) hpaid (hstart.trans hle)
    fun f₂ hcovered _ => ?_
  refine keeps_covered_tame (tame.popTopics _) hcovered fun topics f₃ hcovered₃ => ?_
  refine keeps_bind_readSlice hcovered₃ fun data hpaid₃ => ?_
  refine keeps_of_tame (tame.env fun _ => ?_) hpaid₃
  exact tame.bind_modify (fun _ => ⟨rfl, le_rfl⟩) (tame_host _)

theorem keeps_copyWindow (win : Nat → Nat → Nat) {k : Nat → Nat → Nat → FrameM Unit}
    (hfits : ∀ dst src len rest, f.stack = dst :: src :: len :: rest →
      (mk (win (operand dst) (operand src)) (operand len) true).Fits limit f)
    (h : ∀ dst src len f', Covered limit (win dst src) len f' →
      KeepsPaid limit (k dst src len) env f') :
    KeepsPaid limit (popU64 >>= fun dst => popU64 >>= fun src => popU64 >>= fun len =>
      chargeGas (copyDynamicGas len) >>= fun _ => chargeWindow (win dst src) len >>= fun _ =>
        k dst src len) env f := by
  refine keeps_bind_pops₂ pops_popU64 pops_popU64 hpaid fun dst src rest hstack => ?_
  refine keeps_bind_pops pops_popU64 (hpaid.poorer (poorer_stack f rest)) fun len rest' hrest => ?_
  obtain rfl : rest = len :: rest' := hrest
  have hstart := poorer_stack f rest'
  refine keeps_bind_tame (tame.chargeGas _) (hpaid.poorer hstart) fun _ f₁ hle _ => ?_
  exact keeps_bind_charge (hfits dst src len rest' hstack) hpaid (hstart.trans hle)
    fun f₂ hcovered _ => h _ _ _ f₂ hcovered

theorem keeps_copyFrom (source : Bytes)
    (hfits : ∀ dst src len rest, f.stack = dst :: src :: len :: rest →
      (mk (operand dst) (operand len) true).Fits limit f) :
    KeepsPaid limit (copyFrom source) env f := by
  refine keeps_copyWindow hpaid (fun dst _ => dst) hfits ?_
  intro dst src len f' hcovered
  exact keeps_copy hcovered source src

theorem keeps_returndatacopy
    (hfits : ∀ a ∈ accesses isStatic .RETURNDATACOPY f.stack, a.Fits limit f) :
    KeepsPaid limit returndatacopy env f := by
  refine keeps_copyWindow hpaid (fun dst _ => dst) ?_ ?_
  · intro dst src len rest hstack
    rw [hstack] at hfits
    exact hfits _ mem_cons_self
  intro dst src len f' hcovered
  refine keeps_bind_ret (a := f') rfl (keeps_ite (fun _ => ?_) fun _ => ?_)
  · exact keeps_of_tame (tame.fail _) hcovered.toPaid
  · exact keeps_of_touches (touches_writeSlice hcovered (length_take_le _ _))

theorem keeps_mcopy (hfits : ∀ a ∈ accesses isStatic .MCOPY f.stack, a.Fits limit f) :
    KeepsPaid limit mcopy env f := by
  refine keeps_copyWindow hpaid max ?_ ?_
  · intro dst src len rest hstack
    rw [hstack] at hfits
    exact hfits _ mem_cons_self
  · intro dst src len f' hcovered
    exact keeps_of_touches (touches_memoryCopy hcovered)

theorem keeps_extcodecopy (hfits : ∀ a ∈ accesses isStatic .EXTCODECOPY f.stack, a.Fits limit f) :
    KeepsPaid limit extcodecopy env f := by
  refine keeps_bind_pops₂ pops_popAddress pops_popU64 hpaid fun addr dst rest hstack => ?_
  refine keeps_bind_pops₂ pops_popU64 pops_popU64 (hpaid.poorer (poorer_stack f rest))
    fun src len rest' hrest => ?_
  obtain rfl : rest = src :: len :: rest' := hrest
  rw [hstack] at hfits
  have hstart := poorer_stack f rest'
  refine keeps_bind_tame (tame.accessAddress _) (hpaid.poorer hstart) fun _ f₁ hle₁ hpaid₁ => ?_
  refine keeps_bind_tame (tame.chargeGas _) hpaid₁ fun _ f₂ hle₂ _ => ?_
  refine keeps_bind_charge (hfits _ mem_cons_self) hpaid ((hstart.trans hle₁).trans hle₂)
    fun f₃ hcovered _ => ?_
  exact keeps_covered_tame (tame_host _) hcovered fun code f₄ hcovered₄ =>
    keeps_copy hcovered₄ code _

theorem keeps_payid (hfits : ∀ a ∈ accesses isStatic .PAYID f.stack, a.Fits limit f) :
    KeepsPaid limit payid env f := by
  refine keeps_bind_pops₂ pops_popU64 pops_popU64 hpaid fun ptr len rest hstack => ?_
  rw [hstack] at hfits
  have hpaid' := hpaid.poorer (poorer_stack f rest)
  have hcovered := ((hfits _ mem_cons_self).poorer (poorer_stack f rest)).covered_free hpaid'
  refine keeps_bind_readString hcovered fun payId hpaid₁ => ?_
  exact keeps_of_tame ((tame_host _).bind fun _ => tame.push _) hpaid₁

theorem keeps_zvmlog (hfits : ∀ a ∈ accesses isStatic .ZVMLOG f.stack, a.Fits limit f) :
    KeepsPaid limit zvmlog env f := by
  refine keeps_bind_pops₂ pops_popU64 pops_popU64 hpaid fun keyPtr keyLen rest hstack => ?_
  refine keeps_bind_pops₂ pops_popU64 pops_popU64 (hpaid.poorer (poorer_stack f rest))
    fun valPtr valLen rest' hrest => ?_
  obtain rfl : rest = valPtr :: valLen :: rest' := hrest
  rw [hstack] at hfits
  have hpoorer := poorer_stack f rest'
  have hpaid' := hpaid.poorer hpoorer
  have hkey := ((hfits _ mem_cons_self).poorer hpoorer).covered_free hpaid'
  have hvalue := ((hfits _ (mem_cons_of_mem _ mem_cons_self)).poorer hpoorer).covered_free hpaid'
  have hvalue' := hvalue.grow hkey.paid
  refine keeps_bind_readString hkey fun key _ =>
    keeps_bind_readString hvalue' fun value hread => ?_
  refine keeps_of_tame ?_ hread
  refine (tame_host _).bind fun _ => tame.env fun _ => ?_
  exact tame.modify fun _ => ⟨rfl, le_rfl⟩

end

/-! ## Instructions that start a sub-frame -/

/-- Before a sub-frame: what holds of the plan holds of the frame with the gas that is set
aside. -/
def Ready {π : Type} (limit : Nat) (sub : π → Env × Frame) (R : π → Frame → Prop) :
    Option π → Frame → Prop
  | none, f => Paid limit f
  | some plan, f => R plan { f with gas := f.gas + (sub plan).2.gas }

variable {limit gasReq len off retLen retOff value : Nat} {env : Env} {f sub : Frame}
  {target : Address} {withSalt : Bool} {calldata initcode : Bytes} {P : Precompiles} {α : Type}
  {k : Unit → FrameM α} {kind : ZvmCallKind} {result : ZvmResult} {Q : α → Frame → Prop}

theorem keeps_storeBytes (h : Covered limit off len f) (data : Bytes)
    (hk : ∀ f', Covered limit off len f' → Keeps limit (k ()) Q env f') :
    Keeps limit (storeBytes off (data.take len) >>= k) Q env f := by
  have hlen : 0 + (data.take len).length ≤ len := by
    rw [length_take]
    omega
  exact keeps_bind_touches (touches_storeBytes h _ hlen) fun _ f' hcovered => hk f' hcovered

theorem keeps_settlePrecompile (h : Covered limit retOff retLen f) (answer : Option (Bytes × Nat)) :
    KeepsPaid limit (settlePrecompile retOff retLen answer) env f := by
  cases answer with
  | none => exact keeps_of_tame (tame.clearReturnData.bind fun _ => tame.push _) h.toPaid
  | some answer =>
    refine keeps_covered_tame (tame.modify fun _ => ⟨rfl, Nat.sub_le _ _⟩) h fun _ f₁ h₁ => ?_
    refine keeps_storeBytes h₁ _ fun f₂ hcovered => ?_
    exact keeps_of_tame ((tame.setReturnData _).bind fun _ => tame.push _) hcovered.toPaid

theorem keeps_doPrecompileCall (h : Covered limit retOff retLen f) :
    KeepsPaid limit (doPrecompileCall P target calldata gasReq retOff retLen) env f := by
  refine keeps_bind_ret (a := f) rfl (keeps_ite (fun _ => ?_) fun _ => keeps_ite (fun _ => ?_)
    fun _ => keeps_ite (fun _ => ?_) fun _ => keeps_settlePrecompile h _)
  · exact keeps_covered_tame (tame_host _) h fun lookup f₁ h₁ => keeps_settlePrecompile h₁ _
  · exact keeps_covered_tame (tame_host _) h fun reader f₁ h₁ => keeps_settlePrecompile h₁ _
  · refine keeps_covered_tame (tame_host _) h fun reader f₁ h₁ => ?_
    exact keeps_bind_ret (a := env) rfl (keeps_settlePrecompile h₁ _)

theorem keeps_bind_popValue {k : Nat → FrameM α} (hpaid : Paid limit f)
    (h : ∀ value, Keeps limit (k value) Q env { f with stack := f.stack.drop (valueOperands kind) }) :
    Keeps limit (popValue kind >>= k) Q env f := by
  have hpops : ∀ {k : Nat → FrameM α}, (∀ value, Keeps limit (k value) Q env
      { f with stack := f.stack.drop 1 }) → Keeps limit (popU128 >>= k) Q env f := by
    intro k hk
    refine keeps_bind_pops pops_popU128 hpaid fun w rest hstack => ?_
    rw [hstack] at hk
    exact hk _
  cases kind with
  | call => exact hpops h
  | callCode => exact hpops h
  | delegateCall | staticCall => exact keeps_bind_ret (a := 0) rfl (h 0)

theorem keeps_bind_checkStaticValue (hpaid : Paid limit f) (h : Keeps limit (k ()) Q env f) :
    Keeps limit (checkStaticValue kind value >>= k) Q env f := by
  have hcheck : checkStaticValue kind value env f =
      (if (kind = .call ∨ kind = .callCode) ∧ env.ctx.isStatic ∧ 0 < value then
        fail .staticStateChange else pure () : FrameM Unit) env f := rfl
  by_cases hc : (kind = .call ∨ kind = .callCode) ∧ env.ctx.isStatic ∧ 0 < value
  · rw [if_pos hc] at hcheck
    exact keeps_bind_error hcheck nofun hpaid
  · rw [if_neg hc] at hcheck
    exact keeps_bind_ret hcheck h

theorem tame_sendValue (kind : ZvmCallKind) (target : Address) (value : Nat) :
    Tame (sendValue kind target value) := by
  refine tame.env fun env => tame.ite ?_ (tame.pure _)
  refine (tame_host _).bind fun balance => ?_
  split
  · exact tame.pure _
  · exact (tame_transfer _ _ _).bind fun _ => tame.pure _

abbrev ReturnCovered (limit : Nat) (plan : CallPlan) (f : Frame) : Prop :=
  Covered limit plan.retOff plan.retLen f

theorem keeps_refuseCall (hpaid : Paid limit f) :
    Keeps limit refuseCall (Ready limit CallPlan.sub (ReturnCovered limit)) env f := by
  refine keeps_bind_tame tame.clearReturnData hpaid fun _ f₁ _ hpaid₁ => ?_
  exact keeps_bind_tame (tame.push _) hpaid₁ fun _ f₂ _ hpaid₂ => keeps_of_ret rfl hpaid₂

theorem keeps_planCall {code : Bytes} (h : Covered limit retOff retLen f) :
    Keeps limit (planCall kind target code calldata value gasReq retOff retLen)
      (Ready limit CallPlan.sub (ReturnCovered limit)) env f := by
  refine keeps_of_ret rfl (h.poorer ⟨rfl, ?_⟩)
  show f.gas - min gasReq (f.gas / 64 * 63) + min gasReq (f.gas / 64 * 63) ≤ f.gas
  omega

theorem keeps_prepareCall (hpaid : Paid limit f)
    (hfits : ∀ a ∈ callAccesses kind f.stack, a.Fits limit f) :
    Keeps limit (prepareCall P kind) (Ready limit CallPlan.sub (ReturnCovered limit)) env f := by
  refine keeps_bind_pops₂ pops_popU64 pops_popAddress hpaid fun gasReq target rest hstack => ?_
  refine keeps_bind_popValue (hpaid.poorer (poorer_stack f rest)) fun value => ?_
  refine keeps_bind_checkStaticValue (hpaid.poorer (poorer_stack f _)) ?_
  refine keeps_bind_pops₂ pops_popU64 pops_popU64 (hpaid.poorer (poorer_stack f _))
    fun argsOff argsLen rest₁ hargs => ?_
  refine keeps_bind_pops₂ pops_popU64 pops_popU64 (hpaid.poorer (poorer_stack f rest₁))
    fun retOff retLen rest₂ hret => ?_
  obtain rfl : rest₁ = retOff :: retLen :: rest₂ := hret
  have hoperands : rest.drop (valueOperands kind) =
      argsOff :: argsLen :: retOff :: retLen :: rest₂ := hargs
  have hwindows : callAccesses kind f.stack = [⟨operand argsOff, operand argsLen, true⟩,
      ⟨operand retOff, operand retLen, true⟩] := by
    have hdrop : (f.stack.drop 2).drop (valueOperands kind) =
        argsOff :: argsLen :: retOff :: retLen :: rest₂ := by
      rw [hstack]
      exact hoperands
    unfold callAccesses
    rw [hdrop]
  rw [hwindows] at hfits
  have hstart := poorer_stack f rest₂
  refine keeps_bind_tame (tame.accessAddress _) (hpaid.poorer hstart) fun _ f₁ hle hpaid₁ => ?_
  have hargs₁ := (hfits _ mem_cons_self).poorer (hstart.trans hle)
  have hret₁ := (hfits _ (mem_cons_of_mem _ mem_cons_self)).poorer (hstart.trans hle)
  refine keeps_bind_charge hargs₁ hpaid₁ (.refl f₁) fun f₂ hcoveredArgs hle₂ => ?_
  refine keeps_bind_charge (hret₁.poorer hle₂) hcoveredArgs.toPaid (.refl f₂)
    fun f₃ hcoveredRet hle₃ => ?_
  have hcoveredArgs₃ := hcoveredArgs.poorer hle₃
  refine keeps_bind_ret (a := env) rfl (keeps_ite (fun _ => ?_) fun _ => ?_)
  · exact keeps_refuseCall hcoveredRet.toPaid
  -- the arguments are read first, so that memory has grown when the return data comes back
  have hcovered := hcoveredRet.grow hcoveredArgs₃.paid
  refine keeps_bind_readSlice hcoveredArgs₃ fun calldata _ => keeps_ite (fun _ => ?_) fun _ => ?_
  · exact keeps_bind (keeps_doPrecompileCall hcovered) fun _ f₄ hpaid₄ => keeps_of_ret rfl hpaid₄
  refine keeps_covered_tame (tame_host _) hcovered fun allowed f₄ hcovered₄ => ?_
  refine keeps_ite (fun _ => keeps_refuseCall hcovered₄.toPaid) fun _ => ?_
  refine keeps_covered_tame (tame_host _) hcovered₄ fun code f₅ hcovered₅ => ?_
  refine keeps_covered_tame (tame_sendValue _ _ _) hcovered₅ fun sent f₆ hcovered₆ => ?_
  exact keeps_ite (fun _ => keeps_refuseCall hcovered₆.toPaid) fun _ => keeps_planCall hcovered₆

abbrev CreatePaid (limit : Nat) (_ : CreatePlan) (f : Frame) : Prop := Paid limit f

theorem keeps_refuseCreate (hpaid : Paid limit f) :
    Keeps limit refuseCreate (Ready limit CreatePlan.sub (CreatePaid limit)) env f := by
  exact keeps_bind_tame (tame.push _) hpaid fun _ f₁ _ hpaid₁ => keeps_of_ret rfl hpaid₁

theorem keeps_planCreate {newAddr : Address} (hpaid : Paid limit f) :
    Keeps limit (planCreate newAddr initcode value)
      (Ready limit CreatePlan.sub (CreatePaid limit)) env f := by
  refine keeps_of_ret rfl (hpaid.poorer ⟨rfl, ?_⟩)
  show f.gas - f.gas / 64 * 63 + f.gas / 64 * 63 ≤ f.gas
  omega

theorem keeps_claimAddress {creator : Address} {salt : Option H256} (hpaid : Paid limit f) :
    Keeps limit (claimAddress creator salt initcode value)
      (Ready limit CreatePlan.sub (CreatePaid limit)) env f := by
  refine keeps_bind_tame (tame_host _) hpaid fun creatorNonce f₁ _ hpaid₁ => ?_
  refine keeps_bind_tame (tame_host _) hpaid₁ fun _ f₂ _ hpaid₂ => ?_
  refine keeps_bind_tame (tame_host _) hpaid₂ fun code f₃ _ hpaid₃ => ?_
  refine keeps_ite (fun _ => keeps_refuseCreate hpaid₃) fun _ => ?_
  refine keeps_bind_tame (tame_host _) hpaid₃ fun newNonce f₄ _ hpaid₄ => ?_
  refine keeps_ite (fun _ => keeps_refuseCreate hpaid₄) fun _ => ?_
  have hendow : ∀ newAddr, Tame (endow creator newAddr value) := fun newAddr =>
    tame.ite (tame_transfer _ _ _) (tame.pure _)
  refine keeps_bind_tame (hendow _) hpaid₄ fun _ f₅ _ hpaid₅ => ?_
  exact keeps_bind_tame (tame_host _) hpaid₅ fun _ f₆ _ hpaid₆ => keeps_planCreate hpaid₆

theorem keeps_bind_popSalt {k : Option H256 → FrameM α} (hpaid : Paid limit f)
    (h : ∀ salt rest, ¬ (withSalt ∧ f.stack.isEmpty) → Keeps limit (k salt) Q env
      { f with stack := rest }) : Keeps limit (popSalt withSalt >>= k) Q env f := by
  cases withSalt with
  | false => exact keeps_bind_ret (a := none) rfl (h none f.stack (by simp))
  | true =>
    refine keeps_bind_pops (pops_pop.map some) hpaid fun salt rest hstack => ?_
    exact h _ rest (by simp [hstack])

theorem keeps_chargeInitcode (hpaid : Paid limit f) (hfits : (mk off len true).Fits limit f) :
    Keeps limit (chargeInitcode withSalt off len) (fun _ f' => Covered limit off len f') env f := by
  refine keeps_bind_tame (tame.chargeGas _) hpaid fun _ f₁ hle₁ hpaid₁ => ?_
  refine keeps_bind_tame (tame.chargeGas _) hpaid₁ fun _ f₂ hle₂ hpaid₂ => ?_
  refine (keeps_chargeWindow ((hfits.poorer hle₁).poorer hle₂) hpaid₂).mono (fun _ _ => trivial) fun r hr => ?_
  cases r with
  | ok _ f' => exact hr.1
  | error e f' => exact hr

theorem keeps_prepareCreate (hpaid : Paid limit f)
    (hfits : ∀ a ∈ createAccesses env.ctx.isStatic withSalt f.stack, a.Fits limit f) :
    Keeps limit (prepareCreate withSalt) (Ready limit CreatePlan.sub (CreatePaid limit)) env f := by
  refine keeps_bind_requireNotStatic hpaid fun hstatic => ?_
  refine keeps_bind_pops₂ pops_popU128 pops_popU64 hpaid fun value off rest hstack => ?_
  refine keeps_bind_pops pops_popU64 (hpaid.poorer (poorer_stack f rest)) fun len rest₁ hrest => ?_
  obtain rfl : rest = len :: rest₁ := hrest
  refine keeps_bind_popSalt (hpaid.poorer (poorer_stack f rest₁)) fun salt rest₂ hsalt => ?_
  have hstart := poorer_stack f rest₂
  have hrefuse : ∀ {f' : Frame}, Paid limit f' → Keeps limit (clearReturnData >>= fun _ =>
      refuseCreate) (Ready limit CreatePlan.sub (CreatePaid limit)) env f' := by
    intro f' hpaid'
    exact keeps_bind_tame tame.clearReturnData hpaid' fun _ f₁ _ => keeps_refuseCreate
  refine keeps_ite (fun _ => hrefuse (hpaid.poorer hstart)) fun hlen => ?_
  have hfit : (mk (operand off) (operand len) true).Fits limit f := by
    refine hfits _ ?_
    have hopen : ¬ (false = true ∨ maxInitcodeSize < operand len ∨
        (withSalt ∧ rest₁.isEmpty)) := by
      rintro (h | h | h)
      · cases h
      · exact hlen h
      · exact hsalt h
    rw [hstack, hstatic]
    show _ ∈ (if false = true ∨ maxInitcodeSize < operand len ∨ (withSalt ∧ rest₁.isEmpty) then []
      else [_])
    rw [if_neg hopen]
    exact mem_cons_self
  refine keeps_bind (keeps_chargeInitcode (hpaid.poorer hstart) (hfit.poorer hstart))
    fun _ f₁ hcovered => ?_
  refine keeps_bind_ret (a := env) rfl (keeps_ite (fun _ => hrefuse hcovered.toPaid) fun _ => ?_)
  refine keeps_covered_tame (tame_host _) hcovered fun balance f₂ hcovered₂ => ?_
  refine keeps_ite (fun _ => keeps_refuseCreate hcovered₂.toPaid) fun _ => ?_
  exact keeps_bind_readSlice hcovered₂ fun initcode => keeps_claimAddress

theorem poorer_absorb (result : ZvmResult) (sub f : Frame) :
    Poorer { f with gas := f.gas + result.gasRemaining } { f with
      accessedAddresses := sub.accessedAddresses ∪ f.accessedAddresses
      accessedSlots := sub.accessedSlots ∪ f.accessedSlots
      gas := satU64 (f.gas + result.gasRemaining) } :=
  ⟨rfl, satU64_le _⟩

theorem keeps_finishCall {plan : CallPlan}
    (h : ReturnCovered limit plan { f with gas := f.gas + result.gasRemaining }) :
    KeepsPaid limit (finishCall plan result sub) env f := by
  refine keeps_bind_ret (a := ()) rfl ?_
  have hcovered := h.poorer (poorer_absorb result sub f)
  refine keeps_covered_tame (tame.setReturnData _) hcovered fun _ f₁ hcovered₁ => ?_
  refine keeps_storeBytes hcovered₁ _ fun f₂ hcovered₂ => ?_
  exact keeps_of_tame (tame.push _) hcovered₂.toPaid

theorem tame_deploy (newAddr : Address) (deployed : Bytes) : Tame (deploy newAddr deployed) := by
  refine tame.ite (tame.push _) (tame.ite (tame.push _) (tame.get.bind fun _ => ?_))
  refine tame.ite (tame.push _) (tame.bind_modify (fun _ => ⟨rfl, Nat.sub_le _ _⟩) ?_)
  refine (tame_host _).bind fun _ => (tame_host _).bind fun _ => ?_
  exact tame.clearReturnData.bind fun _ => tame.push _

theorem keeps_finishCreate {plan : CreatePlan}
    (h : CreatePaid limit plan { f with gas := f.gas + result.gasRemaining }) :
    KeepsPaid limit (finishCreate plan result sub) env f := by
  refine keeps_bind_ret (a := ()) rfl ?_
  refine keeps_of_tame (tame.ite (tame_deploy _ _) ?_) (h.poorer (poorer_absorb result sub f))
  exact (tame.setReturnData _).bind fun _ => tame.push _

end ZbxChain.Zvm

import ZbxChain.Zvm.Interpreter

/-!
# Memory of the ZVM: bounds and payment

When does an instruction stay within memory, and is the memory that it allocates paid for?
`accesses` reads the windows of an instruction off its operands. A window fits a frame
(`Access.Fits`) when the sums for its end stay below `2 ^ 64`, and the frame cannot afford it or
has used up, after the charge, at least the quadratic price of the memory there is then.
-/

namespace ZbxChain.Zvm

open FrameM Interaction List

/-! ## Prices -/

def memoryPrice (w : Nat) : Nat := 3 * w + w * w / 512

variable {w : Nat}

theorem memoryPrice_mono {v : Nat} (h : v ≤ w) : memoryPrice v ≤ memoryPrice w := by
  have hsq : v * v ≤ w * w := Nat.mul_le_mul h h
  unfold memoryPrice
  omega

theorem memoryCost_eq (h : w < 2 ^ 32) : memoryCost w = memoryPrice w := by
  have hsq : w * w ≤ (2 ^ 32 - 1) * (2 ^ 32 - 1) := Nat.mul_le_mul (by omega) (by omega)
  have hsat : satU64 (w * w) = w * w := by
    unfold satU64 u64Bound
    omega
  have hsat3 : satU64 (3 * w) = 3 * w := by
    unfold satU64 u64Bound
    omega
  unfold memoryCost memoryPrice
  rw [hsat, hsat3]
  unfold satU64 u64Bound
  omega

/-! ## Windows -/

def windowWords (off len : Nat) : Nat := (off + len + 31) / 32

theorem wordCount_eq {size : Nat} (h : size + 31 < u64Bound) :
    wordCount size = (size + 31) / 32 := by
  unfold wordCount
  rw [Nat.mod_eq_of_lt h]

/-- A window of memory that an instruction works on, and whether it is charged for. -/
structure Access where
  off : Nat
  len : Nat
  charged : Bool

namespace Access

def words (a : Access) : Nat := windowWords a.off a.len

def charge (a : Access) (f : Frame) : Nat :=
  if a.charged then memoryGasDelta (memoryWords f) a.words else 0

/-- The sums for the end of the window do not overflow. The frame cannot afford the window,
or a vector can hold it and, with it, the memory is paid for within `limit`. -/
structure Fits (a : Access) (limit : Nat) (f : Frame) : Prop where
  noOverflow : a.off + a.len + 31 < u64Bound
  paid : f.gas < a.charge f ∨ a.words * 32 < vecBound ∧
    memoryPrice (max (memoryWords f) a.words) + (f.gas - a.charge f) ≤ limit

end Access

def operand (w : H256) : Nat := w.toNat % 2 ^ 64

def valueOperands : ZvmCallKind → Nat
  | .call | .callCode => 1
  | .delegateCall | .staticCall => 0

/-- The windows of `CALL` and its variants: arguments and return data. -/
def callAccesses (kind : ZvmCallKind) (stack : List H256) : List Access :=
  match (stack.drop 2).drop (valueOperands kind) with
  | argsOff :: argsLen :: retOff :: retLen :: _ =>
    [⟨operand argsOff, operand argsLen, true⟩, ⟨operand retOff, operand retLen, true⟩]
  | _ => []

/-- The window of the initcode; a static frame, an initcode that is too long and a missing
salt are refused before. -/
def createAccesses (isStatic withSalt : Bool) : List H256 → List Access
  | _ :: off :: len :: rest =>
    if isStatic ∨ maxInitcodeSize < operand len ∨ (withSalt ∧ rest.isEmpty) then []
    else [⟨operand off, operand len, true⟩]
  | _ => []

def accesses (isStatic : Bool) (op : Opcode) (stack : List H256) : List Access :=
  match op, stack with
  | .MLOAD, off :: _ => [⟨operand off, 32, true⟩]
  | .MSTORE, off :: _ :: _ => [⟨operand off, 32, true⟩]
  | .MSTORE8, off :: _ :: _ => [⟨operand off, 1, true⟩]
  | .KECCAK256, off :: len :: _ => [⟨operand off, operand len, true⟩]
  | .RETURN, off :: len :: _ => [⟨operand off, operand len, true⟩]
  | .REVERT, off :: len :: _ => [⟨operand off, operand len, true⟩]
  | .LOG _, off :: len :: _ => if isStatic then [] else [⟨operand off, operand len, true⟩]
  | .CALLDATACOPY, dst :: _ :: len :: _ => [⟨operand dst, operand len, true⟩]
  | .CODECOPY, dst :: _ :: len :: _ => [⟨operand dst, operand len, true⟩]
  | .RETURNDATACOPY, dst :: _ :: len :: _ => [⟨operand dst, operand len, true⟩]
  | .EXTCODECOPY, _ :: dst :: _ :: len :: _ => [⟨operand dst, operand len, true⟩]
  | .MCOPY, dst :: src :: len :: _ => [⟨max (operand dst) (operand src), operand len, true⟩]
  | .CALL, stack => callAccesses .call stack
  | .CALLCODE, stack => callAccesses .callCode stack
  | .DELEGATECALL, stack => callAccesses .delegateCall stack
  | .STATICCALL, stack => callAccesses .staticCall stack
  | .CREATE, stack => createAccesses isStatic false stack
  | .CREATE2, stack => createAccesses isStatic true stack
  -- the strings of these two are read without a charge
  | .PAYID, ptr :: len :: _ => [⟨operand ptr, operand len, false⟩]
  | .ZVMLOG, keyPtr :: keyLen :: valPtr :: valLen :: _ =>
    [⟨operand keyPtr, operand keyLen, false⟩, ⟨operand valPtr, operand valLen, false⟩]
  | _, _ => []

/-! ## Paid memory -/

structure Paid (limit : Nat) (f : Frame) : Prop where
  aligned : f.memory.length % 32 = 0
  paid : memoryPrice (memoryWords f) + f.gas ≤ limit

structure Covered (limit off len : Nat) (f : Frame) : Prop where
  noOverflow : off + len + 31 < u64Bound
  vec : windowWords off len * 32 < vecBound
  aligned : f.memory.length % 32 = 0
  paid : memoryPrice (max (memoryWords f) (windowWords off len)) + f.gas ≤ limit

structure Poorer (f f' : Frame) : Prop where
  memory : f'.memory.length = f.memory.length
  gas : f'.gas ≤ f.gas

section

variable {limit off len : Nat} {f f' : Frame}

theorem Poorer.refl (f : Frame) : Poorer f f := ⟨rfl, le_rfl⟩

theorem Poorer.trans {f'' : Frame} (h : Poorer f f') (h' : Poorer f' f'') : Poorer f f'' :=
  ⟨h'.memory.trans h.memory, Nat.le_trans h'.gas h.gas⟩

theorem Poorer.memoryWords_eq (h : Poorer f f') : memoryWords f' = memoryWords f := by
  unfold memoryWords
  rw [h.memory]

theorem Paid.poorer (h : Paid limit f) (hle : Poorer f f') : Paid limit f' := by
  have hpaid := h.paid
  have hgas := hle.gas
  refine ⟨hle.memory ▸ h.aligned, ?_⟩
  rw [hle.memoryWords_eq]
  omega

theorem Covered.poorer (h : Covered limit off len f) (hle : Poorer f f') :
    Covered limit off len f' := by
  have hpaid := h.paid
  have hgas := hle.gas
  refine ⟨h.noOverflow, h.vec, hle.memory ▸ h.aligned, ?_⟩
  rw [hle.memoryWords_eq]
  omega

theorem Covered.toPaid (h : Covered limit off len f) : Paid limit f := by
  have hpaid := h.paid
  have hmono : memoryPrice (memoryWords f) ≤ memoryPrice (max (memoryWords f) (windowWords off len)) :=
    memoryPrice_mono (Nat.le_max_left _ _)
  exact ⟨h.aligned, by omega⟩

variable {a : Access}

theorem Access.Fits.poorer (h : a.Fits limit f) (hle : Poorer f f') : a.Fits limit f' := by
  have hcharge : a.charge f' = a.charge f := by
    unfold Access.charge
    rw [hle.memoryWords_eq]
  have hgas := hle.gas
  refine ⟨h.noOverflow, ?_⟩
  rw [hcharge, hle.memoryWords_eq]
  rcases h.paid with hpoor | ⟨hvec, hpaid⟩
  · exact .inl (Nat.lt_of_le_of_lt hgas hpoor)
  · exact .inr ⟨hvec, by omega⟩

theorem Access.fits_of_words_lt (hcharged : a.charged = true) (hend : a.off + a.len + 31 < u64Bound)
    (hwords : a.words < 2 ^ 32) (hpaid : Paid limit f) : a.Fits limit f := by
  have hle := hpaid.paid
  refine ⟨hend, ?_⟩
  by_cases hgas : f.gas < a.charge f
  · exact .inl hgas
  refine .inr ⟨?_, ?_⟩
  · unfold vecBound
    omega
  unfold Access.charge memoryGasDelta at hgas ⊢
  simp only [hcharged, if_true] at hgas ⊢
  by_cases hold : a.words ≤ memoryWords f
  · rw [if_pos hold, Nat.max_eq_left hold]
    omega
  have hlt : memoryWords f < a.words := Nat.lt_of_not_le hold
  rw [if_neg hold, memoryCost_eq hwords, memoryCost_eq (Nat.lt_trans hlt hwords)] at hgas
  rw [if_neg hold, memoryCost_eq hwords, memoryCost_eq (Nat.lt_trans hlt hwords),
    Nat.max_eq_right (Nat.le_of_lt hlt)]
  omega

end

/-! ## Growing -/

def Frame.grow (f : Frame) (w : Nat) : Frame :=
  { f with memory := f.memory ++ replicate (w * 32 - f.memory.length) 0 }

section

variable {limit off len : Nat} {f : Frame} {env : Env}

theorem memoryWords_grow (h : f.memory.length % 32 = 0) (w : Nat) :
    memoryWords (f.grow w) = max (memoryWords f) w := by
  unfold memoryWords Frame.grow
  simp only [length_append, length_replicate]
  omega

theorem length_grow (f : Frame) (w : Nat) :
    (f.grow w).memory.length = max f.memory.length (w * 32) := by
  unfold Frame.grow
  simp only [length_append, length_replicate]
  omega

variable {w : Nat}

theorem grow_of_le (h : w * 32 ≤ f.memory.length) : f.grow w = f := by
  unfold Frame.grow
  rw [Nat.sub_eq_zero_of_le h, replicate_zero, append_nil]

theorem Covered.grow (h : Covered limit off len f)
    (hw : memoryPrice (max (memoryWords f) w) + f.gas ≤ limit) :
    Covered limit off len (f.grow w) := by
  refine ⟨h.noOverflow, h.vec, ?_, ?_⟩
  · rw [length_grow]
    have := h.aligned
    omega
  have hgas : (f.grow w).gas = f.gas := rfl
  have hpaid := h.paid
  rw [memoryWords_grow h.aligned, hgas]
  rcases Nat.le_total (windowWords off len) w with hle | hle
  · rw [show max (max (memoryWords f) w) (windowWords off len) = max (memoryWords f) w by omega]
    exact hw
  rw [show max (max (memoryWords f) w) (windowWords off len) =
    max (memoryWords f) (windowWords off len) by omega]
  exact hpaid

theorem Covered.open (h : Covered limit off len f) (hw : w ≤ windowWords off len) :
    Covered limit off len (f.grow w) := by
  refine h.grow (Nat.le_trans (Nat.add_le_add_right (memoryPrice_mono ?_) _) h.paid)
  omega

theorem resize_eq {size : Nat} (halign : f.memory.length % 32 = 0) (hsize : size + 31 < u64Bound)
    (hvec : (size + 31) / 32 * 32 < vecBound) :
    resize size env f = .ret (.ok () (f.grow ((size + 31) / 32))) := by
  show (if f.memory.length < size then _ else _ : FrameM Unit) env f = _
  by_cases hlt : f.memory.length < size
  · rw [if_pos hlt, wordCount_eq hsize]
    rw [if_neg (Nat.not_le.mpr hvec), take_of_length_le (by omega)]
    rfl
  · rw [if_neg hlt, grow_of_le (by omega)]
    rfl

end

/-! ## Touching a window -/

theorem bind_of_ret {α β : Type} {env : Env} {f f' : Frame} {x : FrameM α} {a : α}
    (h : x env f = .ret (.ok a f')) (k : α → FrameM β) : (x >>= k) env f = k a env f' := by
  show FrameM.bind x k env f = _
  unfold FrameM.bind
  rw [h]
  rfl

def Touches {α : Type} (limit off len : Nat) (x : FrameM α) (env : Env) (f : Frame) : Prop :=
  ∃ a f', x env f = .ret (.ok a f') ∧ Covered limit off len f'

variable {limit off len i l off : Nat} {f f : Frame} {env : Env} {data : Bytes}

section

variable (h : Covered limit off len f) (hl : l ≤ len)

include h hl

theorem Covered.wrapAdd_eq : wrapAdd off l = off + l := by
  have hend := h.noOverflow
  exact Nat.mod_eq_of_lt (by omega)

theorem Covered.resize_eq :
    resize (off + l) env f = .ret (.ok () (f.grow (windowWords off l))) := by
  have hend := h.noOverflow
  have hvec := h.vec
  refine Zvm.resize_eq h.aligned (by omega) (Nat.lt_of_le_of_lt ?_ hvec)
  unfold windowWords
  omega

theorem Covered.open_part : Covered limit off len (f.grow (windowWords off l)) := by
  refine h.open ?_
  unfold windowWords
  omega

end

theorem le_length_grow (f : Frame) (off l : Nat) :
    off + l ≤ (f.grow (windowWords off l)).memory.length := by
  rw [length_grow]
  unfold windowWords
  omega

theorem slice_eq (env : Env) {len : Nat} (h : off + len ≤ f.memory.length) :
    ∃ bytes, bytes.length = len ∧ slice off (off + len) env f = .ret (.ok bytes f) := by
  refine ⟨(f.memory.drop off).take len, ?_, ?_⟩
  · rw [length_take, length_drop]
    omega
  show (if off ≤ off + len ∧ off + len ≤ f.memory.length then _ else _ : FrameM Bytes) env f = _
  rw [if_pos ⟨Nat.le_add_right _ _, h⟩, Nat.add_sub_cancel_left]
  rfl

def Frame.patch (f : Frame) (off : Nat) (data : Bytes) : Frame :=
  { f with memory := f.memory.take off ++ data ++ f.memory.drop (off + data.length) }

theorem poorer_patch (h : off + data.length ≤ f.memory.length) : Poorer f (f.patch off data) := by
  refine ⟨?_, le_rfl⟩
  unfold Frame.patch
  simp only [length_append, length_take, length_drop]
  omega

theorem overwrite_eq (env : Env) (h : off + data.length ≤ f.memory.length) :
    overwrite off (off + data.length) data env f = .ret (.ok () (f.patch off data)) := by
  show (if off ≤ off + data.length ∧ off + data.length ≤ f.memory.length then _
    else _ : FrameM Unit) env f = _
  rw [if_pos ⟨Nat.le_add_right _ _, h⟩]
  rfl

theorem readSlice_eq (env : Env) (h : Covered limit off len f) : ∃ bytes, bytes.length = len ∧
      readSlice off len env f = .ret (.ok bytes (f.grow (windowWords off len))) := by
  obtain ⟨bytes, hbytes, hslice⟩ := slice_eq env (le_length_grow f off len)
  refine ⟨bytes, hbytes, ?_⟩
  unfold readSlice
  rw [h.wrapAdd_eq (le_rfl), bind_of_ret (h.resize_eq (le_rfl))]
  exact hslice

theorem touches_writeSlice (h : Covered limit off len f) {src : Bytes} (hsrc : src.length ≤ len) :
    Touches limit off len (writeSlice off src) env f := by
  unfold writeSlice
  by_cases hnil : src = []
  · rw [if_pos hnil]
    exact ⟨(), f, rfl, h⟩
  have hlen := le_length_grow f off src.length
  rw [if_neg hnil]
  refine ⟨(), _, ?_, (h.open_part hsrc).poorer (poorer_patch hlen)⟩
  rw [h.wrapAdd_eq hsrc, bind_of_ret (h.resize_eq hsrc)]
  exact overwrite_eq env hlen

theorem touches_store (h : Covered limit off 32 f) (word : H256) :
    Touches limit off 32 (store off word) env f := by
  have hword : word.toBytes.length = 32 := H256.length_toBytes word
  have hlen := le_length_grow f off word.toBytes.length
  have hpart : word.toBytes.length ≤ 32 := Nat.le_of_eq hword
  refine ⟨(), _, ?_, (h.open_part hpart).poorer (poorer_patch hlen)⟩
  unfold store
  rw [← hword, h.wrapAdd_eq hpart, bind_of_ret (h.resize_eq hpart)]
  exact overwrite_eq env hlen

theorem touches_store8 (h : Covered limit off len f) (hi : i < len) (byte : UInt8) :
    Touches limit off len (store8 (off + i) byte) env f := by
  have hend := h.noOverflow
  have hwrap : wrapAdd (off + i) 1 = off + (i + 1) := by
    exact Nat.mod_eq_of_lt (by omega)
  have hlen := le_length_grow f off (i + 1)
  have hopen := h.open_part (show i + 1 ≤ len from hi)
  refine ⟨(), { f.grow (windowWords off (i + 1)) with
    memory := (f.grow (windowWords off (i + 1))).memory.set (off + i) byte }, ?_,
    hopen.poorer ⟨length_set .., le_rfl⟩⟩
  unfold store8
  rw [hwrap, bind_of_ret (h.resize_eq hi)]
  show (if off + i < (f.grow (windowWords off (i + 1))).memory.length then _
    else _ : FrameM Unit) env _ = _
  rw [if_pos (by omega)]
  rfl

theorem touches_storeBytes (h : Covered limit off len f) (data : Bytes)
    (hi : i + data.length ≤ len) : Touches limit off len (storeBytes (off + i) data) env f := by
  induction data generalizing f i with
  | nil => exact ⟨(), f, rfl, h⟩
  | cons b rest ih =>
    have hlen : i + (rest.length + 1) ≤ len := hi
    obtain ⟨_, f₁, hrun, hcovered⟩ := touches_store8 h (show i < len by omega) b
    obtain ⟨_, f₂, hrest, hcovered₂⟩ := ih hcovered (show i + 1 + rest.length ≤ len by omega)
    have hend := h.noOverflow
    have hwrap : wrapAdd (off + i) 1 = off + (i + 1) := by
      exact Nat.mod_eq_of_lt (by omega)
    refine ⟨(), f₂, ?_, hcovered₂⟩
    unfold storeBytes
    rw [bind_of_ret hrun, hwrap]
    exact hrest

theorem touches_memoryCopy {dst src : Nat} (h : Covered limit (max dst src) len f) :
    Touches limit (max dst src) len (memoryCopy dst src len) env f := by
  unfold memoryCopy
  by_cases hlen : len = 0
  · rw [if_pos hlen]
    exact ⟨(), f, rfl, h⟩
  have hend := h.noOverflow
  have hsat : satU64 (max dst src + len) = max dst src + len := by
    unfold satU64
    omega
  have hwrap : wrapAdd src len = src + len := by
    exact Nat.mod_eq_of_lt (by omega)
  have hgrown := le_length_grow f (max dst src) len
  obtain ⟨bytes, hbytes, hslice⟩ := slice_eq (f := f.grow (windowWords (max dst src) len)) env
    (show src + len ≤ _ by omega)
  have hdst : dst + bytes.length ≤ (f.grow (windowWords (max dst src) len)).memory.length := by
    omega
  refine ⟨(), _, ?_, (h.open_part (le_rfl)).poorer (poorer_patch hdst)⟩
  rw [if_neg hlen, hsat, hwrap, bind_of_ret (h.resize_eq (le_rfl)), bind_of_ret hslice]
  show (if dst + bytes.length ≤ (f.grow (windowWords (max dst src) len)).memory.length then _
    else _ : FrameM Unit) env _ = _
  rw [if_pos hdst]
  rfl

end ZbxChain.Zvm

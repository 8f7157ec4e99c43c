import ZbxChain.Types.Primitives

/-!
# Arithmetic on ZVM words

The word operations of `zbx-zvm/src/interpreter.rs` that `U256` does not have by itself: signed
arithmetic by magnitude and sign, byte selection, sign extension and powers.
-/

namespace ZbxChain.Zvm

def isNegative (x : U256) : Bool := 2 ^ 255 ≤ x.toNat

def neg (x : U256) : U256 := ~~~x + 1

def magnitude (x : U256) : U256 := if isNegative x then neg x else x

def minNeg : U256 := BitVec.ofNat 256 (2 ^ 255)

def maxValue : U256 := BitVec.allOnes 256

variable (a b : U256)

def div : U256 := if b = 0 then 0 else a / b

def mod : U256 := if b = 0 then 0 else a % b

def sdivU256 : U256 :=
  if b = 0 then 0
  else if a = minNeg ∧ b = maxValue then minNeg
  else
    let q := magnitude a / magnitude b
    if isNegative a != isNegative b then neg q else q

def smodU256 : U256 :=
  if b = 0 then 0
  else
    let r := magnitude a % magnitude b
    if r = 0 then 0 else if isNegative a then neg r else r

def signedLt : Bool :=
  match isNegative a, isNegative b with
  | true, false => true
  | false, true => false
  | _, _ => a < b

variable (value shift : U256)

def shl : U256 :=
  if 256 ≤ shift.toNat then 0 else value <<< shift.toNat

def shr : U256 :=
  if 256 ≤ shift.toNat then 0 else value >>> shift.toNat

def sarU256 : U256 :=
  if 256 ≤ shift.toNat then (if isNegative value then maxValue else 0)
  else
    let logical := value >>> shift.toNat
    if isNegative value = false then logical
    else if shift = 0 then logical
    else logical ||| (maxValue <<< (256 - shift.toNat))

def addmod (a b n : U256) : U256 :=
  if n = 0 then 0 else BitVec.ofNat 256 ((a.toNat + b.toNat) % n.toNat)

def mulmod (a b n : U256) : U256 :=
  if n = 0 then 0 else BitVec.ofNat 256 (a.toNat * b.toNat % n.toNat)

/-- `overflowing_pow`, by squaring; the bits of the exponent are taken from the top. -/
def wrappingPow (base exp : U256) : U256 :=
  (List.range 256).foldl (fun acc i =>
    if exp.getMsbD i then acc * acc * base else acc * acc) 1

def signextend (b x : U256) : U256 :=
  if 31 ≤ b.toNat then x
  else
    let width := 8 * (b.toNat + 1)
    if x.getLsbD (width - 1) then x ||| (maxValue <<< width) else x &&& ~~~(maxValue <<< width)

def byteAt (i x : U256) : U256 :=
  if 32 ≤ i.toNat then 0 else (x >>> (8 * (31 - i.toNat))) &&& 0xff

/-! ## The signed operations on integers -/

theorem isNegative_eq_msb : isNegative a = a.msb := (BitVec.msb_eq_decide a).symm

theorem neg_eq : neg a = -a := (BitVec.neg_eq_not_add a).symm

theorem sdivU256_eq : sdivU256 a b = a.sdiv b := by
  simp only [sdivU256, magnitude, isNegative_eq_msb, neg_eq, BitVec.sdiv_eq]
  split
  next h =>
    subst h
    cases a.msb <;> simp
  split
  next h =>
    obtain ⟨rfl, rfl⟩ := h
    decide
  cases a.msb <;> cases b.msb <;> simp

theorem smodU256_eq : smodU256 a b = if b = 0 then 0 else a.srem b := by
  simp only [smodU256, magnitude, isNegative_eq_msb, neg_eq, BitVec.srem_eq]
  cases a.msb <;> cases b.msb <;> simp <;> grind

theorem signedLt_iff : signedLt a b = true ↔ a.toInt < b.toInt := by
  simp only [BitVec.toInt_eq_msb_cond, signedLt, isNegative_eq_msb]
  have ha := BitVec.msb_eq_decide a
  have hb := BitVec.msb_eq_decide b
  cases h : a.msb <;> cases h' : b.msb <;> simp [h, BitVec.lt_def] at ha ⊢ <;>
    simp [h'] at hb <;> omega

theorem sarU256_eq : sarU256 value shift = value.sshiftRight shift.toNat := by
  apply BitVec.eq_of_getLsbD_eq
  intro i hi
  have key : (maxValue <<< (256 - shift.toNat)).getLsbD i = decide (256 - shift.toNat ≤ i) := by
    simp only [maxValue, BitVec.getLsbD_shiftLeft, BitVec.getLsbD_allOnes]
    grind
  have all : maxValue.getLsbD i = true := by
    simp only [maxValue, BitVec.getLsbD_allOnes, hi, decide_true]
  have out (h : 256 ≤ shift.toNat + i) : value.getLsbD (shift.toNat + i) = false :=
    BitVec.getLsbD_of_ge value _ h
  have zero : (0 : U256).getLsbD i = false := BitVec.getLsbD_zero
  have h0 : shift = 0 → shift.toNat = 0 := by rintro rfl; rfl
  simp only [sarU256, isNegative_eq_msb, BitVec.getLsbD_sshiftRight]
  split <;> grind

theorem signed_operations :
    (sdivU256 a b).toInt = (if b = 0 then 0 else (a.toInt.tdiv b.toInt).bmod (2 ^ 256)) ∧
    (smodU256 a b).toInt = (if b = 0 then 0 else a.toInt.tmod b.toInt) ∧
    (signedLt a b = true ↔ a.toInt < b.toInt) ∧ (signedLt b a = true ↔ a.toInt > b.toInt) ∧
    (sarU256 a b).toInt = a.toInt / 2 ^ b.toNat := by
  refine ⟨?_, ?_, signedLt_iff a b, signedLt_iff b a, ?_⟩
  · rw [sdivU256_eq, BitVec.toInt_sdiv]
    split
    next h => simp [h]
    rfl
  · rw [smodU256_eq]
    split
    · rfl
    exact BitVec.toInt_srem a b
  · rw [sarU256_eq, BitVec.toInt_sshiftRight, Int.shiftRight_eq_div_pow]
    rfl

end ZbxChain.Zvm

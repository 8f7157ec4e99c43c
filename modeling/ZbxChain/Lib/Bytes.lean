import Mathlib.Tactic.Ring
import Mathlib.Tactic.Linarith
import Mathlib.Data.List.DropRight
import Mathlib.Data.Set.Function

/-!
# Byte strings and big-endian numbers

A byte string is a list of `UInt8`. `beBytes w n` writes `n` in `w` bytes, most significant byte
first and modulo `256 ^ w`; `beNat` reads such a string back.
-/

namespace ZbxChain

abbrev Bytes := List UInt8

/-- The number whose big-endian digits are the bytes of `b`. -/
def beNat (b : Bytes) : Nat :=
  b.foldl (fun acc x => acc * 256 + x.toNat) 0

/-- `n` modulo `256 ^ w` in `w` bytes, most significant byte first. -/
def beBytes : Nat → Nat → Bytes
  | 0, _ => []
  | w + 1, n => UInt8.ofNat (n / 256 ^ w) :: beBytes w n

def trimZeros (b : Bytes) : Bytes :=
  b.dropWhile (· == 0)

@[simp] theorem length_beBytes (w n : Nat) : (beBytes w n).length = w := by
  induction w with
  | zero => rfl
  | succ w ih => simp [beBytes, ih]

@[simp] theorem beNat_nil : beNat [] = 0 := rfl

private theorem foldl_beNat (b : Bytes) (acc : Nat) :
    b.foldl (fun acc x => acc * 256 + x.toNat) acc = acc * 256 ^ b.length + beNat b := by
  induction b generalizing acc with
  | nil => simp
  | cons x b ih =>
    have h₁ := ih (acc * 256 + x.toNat)
    have h₂ := ih x.toNat
    simp only [beNat, List.foldl_cons, List.length_cons, Nat.zero_mul, Nat.zero_add, pow_succ]
      at h₁ h₂ ⊢
    rw [h₁, h₂]
    ring

theorem beNat_cons (x : UInt8) (b : Bytes) :
    beNat (x :: b) = x.toNat * 256 ^ b.length + beNat b := by
  simpa [beNat] using foldl_beNat b x.toNat

theorem beNat_lt (b : Bytes) : beNat b < 256 ^ b.length := by
  induction b with
  | nil => simp
  | cons x b ih =>
    have hx : x.toNat + 1 ≤ 256 := x.toNat_lt
    have := Nat.mul_le_mul_right (256 ^ b.length) hx
    rw [beNat_cons, List.length_cons, pow_succ]
    linarith

theorem beNat_beBytes (w n : Nat) : beNat (beBytes w n) = n % 256 ^ w := by
  induction w with
  | zero => simp [beBytes, Nat.mod_one]
  | succ w ih =>
    have hx : (UInt8.ofNat (n / 256 ^ w)).toNat = n / 256 ^ w % 256 := by
      simp [UInt8.toNat_ofNat']
    rw [beBytes, beNat_cons, ih, length_beBytes, hx, pow_succ, Nat.mod_mul]
    ring

variable {a b : Bytes} {m n w : Nat} {x : UInt8}

theorem beNat_beBytes_of_lt (h : n < 256 ^ w) : beNat (beBytes w n) = n := by
  rw [beNat_beBytes, Nat.mod_eq_of_lt h]

theorem beBytes_congr (h : m % 256 ^ w = n % 256 ^ w) : beBytes w m = beBytes w n := by
  induction w with
  | zero => rfl
  | succ w ih =>
    have hlow : m % 256 ^ w = n % 256 ^ w := by
      have := congrArg (· % 256 ^ w) h
      simpa [pow_succ, Nat.mod_mul_right_mod] using this
    have hdigit : m / 256 ^ w % 256 = n / 256 ^ w % 256 := by
      have := congrArg (· / 256 ^ w) h
      simpa [pow_succ, Nat.mod_mul_right_div_self] using this
    rw [beBytes, beBytes, ih hlow]
    congr 1
    apply UInt8.toNat_inj.mp
    simpa [UInt8.toNat_ofNat'] using hdigit

theorem beBytes_beNat (b : Bytes) : beBytes b.length (beNat b) = b := by
  induction b with
  | nil => rfl
  | cons x b ih =>
    have hlt := beNat_lt b
    have hpos : 0 < 256 ^ b.length := by positivity
    have hdigit : beNat (x :: b) / 256 ^ b.length = x.toNat := by
      rw [beNat_cons, Nat.add_comm, Nat.add_mul_div_right _ _ hpos, Nat.div_eq_of_lt hlt,
        Nat.zero_add]
    have hrest : beBytes b.length (beNat (x :: b)) = b := by
      rw [beBytes_congr (n := beNat b), ih]
      rw [beNat_cons, Nat.add_comm, Nat.add_mul_mod_self_right]
    simp [beBytes, hdigit, hrest]

theorem beNat_inj (hlen : a.length = b.length) (h : beNat a = beNat b) : a = b := by
  rw [← beBytes_beNat a, ← beBytes_beNat b, hlen, h]

theorem beBytes_inj (hm : m < 256 ^ w) (hn : n < 256 ^ w) (h : beBytes w m = beBytes w n) :
    m = n := by
  rw [← beNat_beBytes_of_lt hm, h, beNat_beBytes_of_lt hn]

/-! ## Leading zeros -/

theorem beNat_trimZeros (b : Bytes) : beNat (trimZeros b) = beNat b := by
  induction b with
  | nil => rfl
  | cons x b ih =>
    by_cases hx : x = 0
    · subst hx
      simpa [trimZeros, beNat_cons] using ih
    · simp [trimZeros, hx]

theorem length_trimZeros_le (b : Bytes) : (trimZeros b).length ≤ b.length :=
  (List.dropWhile_sublist _).length_le

theorem trimZeros_head_ne_zero {rest : Bytes} (h : trimZeros b = x :: rest) : x ≠ 0 := by
  induction b with
  | nil => simp [trimZeros] at h
  | cons y b ih =>
    by_cases hy : y = 0
    · subst hy
      exact ih (by simpa [trimZeros] using h)
    simp only [trimZeros, List.dropWhile_cons, beq_iff_eq, hy, if_false] at h
    injection h with hxy _
    exact hxy ▸ hy

theorem trimZeros_ne_nil (h : beNat b ≠ 0) : trimZeros b ≠ [] := by
  intro hnil
  apply h
  rw [← beNat_trimZeros, hnil, beNat_nil]

theorem trimZeros_inj (hlen : a.length = b.length) (h : trimZeros a = trimZeros b) : a = b := by
  apply beNat_inj hlen
  rw [← beNat_trimZeros a, h, beNat_trimZeros]

theorem head?_trimZeros_ne (b : Bytes) : (trimZeros b).head? ≠ some 0 := by
  cases h : trimZeros b with
  | nil => simp
  | cons x rest => simpa using trimZeros_head_ne_zero h

theorem pow_length_le_beNat (hx : x ≠ 0) : 256 ^ b.length ≤ beNat (x :: b) := by
  have hpos : 1 ≤ x.toNat := Nat.pos_of_ne_zero fun h => hx (UInt8.toNat_inj.mp h)
  have hmul := Nat.mul_le_mul_right (256 ^ b.length) hpos
  rw [beNat_cons]
  omega

theorem length_le_of_beNat_le (ha : a.head? ≠ some 0) (h : beNat a ≤ beNat b) :
    a.length ≤ b.length := by
  cases a with
  | nil => exact Nat.zero_le _
  | cons x a =>
    have hlow : 256 ^ a.length ≤ beNat (x :: a) := pow_length_le_beNat (by simpa using ha)
    have hpow : 256 ^ a.length < 256 ^ b.length := (hlow.trans h).trans_lt (beNat_lt b)
    exact (Nat.pow_lt_pow_iff_right (by decide)).mp hpow

theorem eq_of_beNat_eq (ha : a.head? ≠ some 0) (hb : b.head? ≠ some 0) (h : beNat a = beNat b) :
    a = b :=
  beNat_inj (Nat.le_antisymm (length_le_of_beNat_le ha h.le) (length_le_of_beNat_le hb h.ge)) h

end ZbxChain

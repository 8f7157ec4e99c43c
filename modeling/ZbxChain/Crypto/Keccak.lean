import Mathlib.Data.List.Nodup
import Mathlib.Data.List.Dedup
import ZbxChain.Types.Primitives

/-!
# Keccak-256

The hash the chain uses for trie nodes, state keys, code hashes and addresses, as the sponge of
rate 136 bytes over Keccak-f[1600] with the padding byte `0x01`. The operations on lanes are the
binary-number primitives themselves, so that digests of short strings are computed by evaluation in
the kernel. What the other modules assume about the hash, always for a given finite set of byte
strings, is `CollisionFree`.
-/

namespace ZbxChain

namespace Keccak

def rotl (v n : Nat) : Nat :=
  Nat.mod (Nat.lor (Nat.shiftLeft v n) (Nat.shiftRight v (Nat.sub 64 n))) 18446744073709551616

structure Plane where
  (a b c d e : Nat)

structure Lanes where
  (y0 y1 y2 y3 y4 : Plane)

def Plane.xor (p q : Plane) : Plane :=
  ⟨Nat.xor p.a q.a, Nat.xor p.b q.b, Nat.xor p.c q.c, Nat.xor p.d q.d, Nat.xor p.e q.e⟩

/-- The effect of the column parities `c` on every plane. -/
def thetaEffect (c : Plane) : Plane :=
  ⟨Nat.xor c.e (rotl c.b 1), Nat.xor c.a (rotl c.c 1), Nat.xor c.b (rotl c.d 1),
   Nat.xor c.c (rotl c.e 1), Nat.xor c.d (rotl c.a 1)⟩

variable (s : Lanes)

def theta : Lanes :=
  let d := thetaEffect (s.y0.xor (s.y1.xor (s.y2.xor (s.y3.xor s.y4))))
  ⟨s.y0.xor d, s.y1.xor d, s.y2.xor d, s.y3.xor d, s.y4.xor d⟩

def rhoPi : Lanes :=
  ⟨⟨s.y0.a, rotl s.y1.b 44, rotl s.y2.c 43, rotl s.y3.d 21, rotl s.y4.e 14⟩,
   ⟨rotl s.y0.d 28, rotl s.y1.e 20, rotl s.y2.a 3, rotl s.y3.b 45, rotl s.y4.c 61⟩,
   ⟨rotl s.y0.b 1, rotl s.y1.c 6, rotl s.y2.d 25, rotl s.y3.e 8, rotl s.y4.a 18⟩,
   ⟨rotl s.y0.e 27, rotl s.y1.a 36, rotl s.y2.b 10, rotl s.y3.c 15, rotl s.y4.d 56⟩,
   ⟨rotl s.y0.c 62, rotl s.y1.d 55, rotl s.y2.e 39, rotl s.y3.a 41, rotl s.y4.b 2⟩⟩

def chiLane (a b c : Nat) : Nat :=
  Nat.xor a (Nat.land (Nat.sub 18446744073709551615 b) c)

def chiPlane (p : Plane) : Plane :=
  ⟨chiLane p.a p.b p.c, chiLane p.b p.c p.d, chiLane p.c p.d p.e, chiLane p.d p.e p.a,
   chiLane p.e p.a p.b⟩

def chi : Lanes :=
  ⟨chiPlane s.y0, chiPlane s.y1, chiPlane s.y2, chiPlane s.y3, chiPlane s.y4⟩

def iota (rc : Nat) (s : Lanes) : Lanes :=
  { s with y0 := { s.y0 with a := Nat.xor s.y0.a rc } }

def roundConstants : List Nat :=
  [0x0000000000000001, 0x0000000000008082, 0x800000000000808A, 0x8000000080008000,
   0x000000000000808B, 0x0000000080000001, 0x8000000080008081, 0x8000000000008009,
   0x000000000000008A, 0x0000000000000088, 0x0000000080008009, 0x000000008000000A,
   0x000000008000808B, 0x800000000000008B, 0x8000000000008089, 0x8000000000008003,
   0x8000000000008002, 0x8000000000000080, 0x000000000000800A, 0x800000008000000A,
   0x8000000080008081, 0x8000000000008080, 0x0000000080000001, 0x8000000080008008]

def permute : Lanes :=
  roundConstants.foldl (fun s rc => iota rc (chi (rhoPi (theta s)))) s

/-- A little-endian number; a lane is read from eight bytes. -/
def leNat (b : Bytes) : Nat :=
  b.foldr (fun x acc => Nat.add x.toNat (Nat.mul 256 acc)) 0

def leBytes : Nat → Nat → Bytes
  | 0, _ => []
  | w + 1, n => UInt8.ofNat n :: leBytes w (n / 256)

/-- Lane `i` of a 136-byte block. -/
def blockLane (block : Bytes) (i : Nat) : Nat :=
  leNat ((block.drop (8 * i)).take 8)

def absorbBlock (block : Bytes) : Lanes :=
  let l := blockLane block
  permute
    ⟨s.y0.xor ⟨l 0, l 1, l 2, l 3, l 4⟩, s.y1.xor ⟨l 5, l 6, l 7, l 8, l 9⟩,
     s.y2.xor ⟨l 10, l 11, l 12, l 13, l 14⟩, s.y3.xor ⟨l 15, l 16, 0, 0, 0⟩, s.y4⟩

def absorb : Nat → Lanes → Bytes → Lanes
  | 0, s, _ => s
  | n + 1, s, m => absorb n (absorbBlock s (m.take 136)) (m.drop 136)

def pad (m : Bytes) : Bytes :=
  let q := 136 - m.length % 136
  if q = 1 then m ++ [0x81] else m ++ [0x01] ++ List.replicate (q - 2) 0 ++ [0x80]

def zeroPlane : Plane := ⟨0, 0, 0, 0, 0⟩

def digest (m : Bytes) : Bytes :=
  let s := absorb (m.length / 136 + 1) ⟨zeroPlane, zeroPlane, zeroPlane, zeroPlane, zeroPlane⟩ (pad m)
  [s.y0.a, s.y0.b, s.y0.c, s.y0.d].flatMap (leBytes 8)

end Keccak

@[irreducible] def keccak256 (m : Bytes) : H256 :=
  H256.ofBytes (Keccak.digest m)

/-- `keccak256` does not collide on the byte strings in `S`. -/
def CollisionFree (S : Set Bytes) : Prop :=
  Set.InjOn keccak256 S

theorem CollisionFree.mono {S T : Set Bytes} (h : CollisionFree T) (hST : S ⊆ T) :
    CollisionFree S :=
  Set.InjOn.mono hST h

theorem CollisionFree.eq {S : Set Bytes} (h : CollisionFree S) {a b : Bytes}
    (ha : a ∈ S) (hb : b ∈ S) (hab : keccak256 a = keccak256 b) : a = b :=
  h ha hb hab

theorem collisionFree_of_nodup {l : List Bytes} (h : (l.dedup.map keccak256).Nodup) :
    CollisionFree {e | e ∈ l} := by
  intro a ha b hb hab
  exact List.inj_on_of_nodup_map h (List.mem_dedup.mpr ha) (List.mem_dedup.mpr hb) hab

/-- `EMPTY_CODE_HASH` of the source. -/
def emptyCodeHash : H256 :=
  0xc5d2460186f7233c927e7db2dcc703c0e500b653ca82273b7bfad8045d85a470#256

/-- `EMPTY_ROOT` and `EMPTY_STORAGE_ROOT` of the source. -/
def emptyRoot : H256 :=
  0x56e81f171bcc55a6ff8345e692c0f86e5b48e01b996cadc001622fb5e363b421#256

example : keccak256 [] = emptyCodeHash := by
  decide +kernel

theorem keccak256_emptyString : keccak256 [0x80] = emptyRoot := by
  decide +kernel

/-!
## SHA3-256

The hash that names slash records and slash events: the sponge of `Keccak` with the
padding byte `0x06`.
-/

namespace Keccak

def sha3Pad (m : Bytes) : Bytes :=
  let q := 136 - m.length % 136
  if q = 1 then m ++ [0x86] else m ++ [0x06] ++ List.replicate (q - 2) 0 ++ [0x80]

def sha3Digest (m : Bytes) : Bytes :=
  let s := absorb (m.length / 136 + 1) ⟨zeroPlane, zeroPlane, zeroPlane, zeroPlane, zeroPlane⟩
    (sha3Pad m)
  [s.y0.a, s.y0.b, s.y0.c, s.y0.d].flatMap (leBytes 8)

theorem length_leBytes (w n : Nat) : (leBytes w n).length = w := by
  induction w generalizing n with
  | zero => rfl
  | succ w ih => exact congrArg (· + 1) (ih (n / 256))

theorem leBytes_inj {w m n : Nat} (hm : m < 256 ^ w) (hn : n < 256 ^ w)
    (h : leBytes w m = leBytes w n) : m = n := by
  induction w generalizing m n with
  | zero =>
    rw [pow_zero] at hm hn
    omega
  | succ w ih =>
    rw [pow_succ] at hm hn
    obtain ⟨hlow, hhigh⟩ := List.cons.inj h
    have hrest := ih (Nat.div_lt_of_lt_mul (by omega)) (Nat.div_lt_of_lt_mul (by omega)) hhigh
    have hmod : m % 256 = n % 256 := by
      have := congrArg UInt8.toNat hlow
      simpa using this
    omega

end Keccak

@[irreducible] def sha3_256 (m : Bytes) : H256 :=
  H256.ofBytes (Keccak.sha3Digest m)

example : sha3_256 [] =
    0xa7ffc6f8bf1ed76651c14756a061d662f580ff4de43b49fa82d80a4b80f8434a#256 := by
  decide +kernel

end ZbxChain

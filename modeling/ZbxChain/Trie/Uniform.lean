import ZbxChain.Trie.History

/-!
# Insertions one after the other

The tree of a list of insertions has the map in which later values override earlier ones. The trie
stores that tree as long as all trees on the way can be decoded: when no value is empty, or when
all keys have the same length, since then no branch has a value of its own and empty values stand
in leaves only.
-/

namespace ZbxChain

open Radix List

namespace NibbleTree

/-- Every key has length `n`, and its value fits. -/
def Uniform (n : Nat) (t : NibbleTree) : Prop :=
  ∀ k v, lookup t k = some v → k.length = n ∧ n + v.length < 2 ^ 62

theorem Uniform.below {n : Nat} {path : Nibbles} {child : NibbleTree}
    (h : Uniform n (.ext path child)) : Uniform (n - path.length) child := by
  intro k v hk
  obtain ⟨hlen, hsize⟩ := h (path ++ k) v (by rw [lookup_ext_append, hk])
  rw [length_append] at hlen
  omega

theorem Uniform.child {n : Nat} {children : Nibble → NibbleTree} {value : Option Bytes}
    (h : Uniform n (.branch children value)) (i : Nibble) : Uniform (n - 1) (children i) := by
  intro k v hk
  obtain ⟨hlen, hsize⟩ := h (i :: k) v hk
  rw [length_cons] at hlen
  omega

theorem Uniform.insert {n : Nat} {t : NibbleTree} (h : Uniform n t) {k : Nibbles} {v : Bytes}
    (hlen : k.length = n) (hsize : n + v.length < 2 ^ 62) : Uniform n (insert t k v) := by
  intro l w hl
  rw [lookup_insert] at hl
  split at hl
  · next hlk =>
    cases hl
    rw [hlk]
    exact ⟨hlen, hsize⟩
  · exact h l w hl

theorem Uniform.fits {n : Nat} {t : NibbleTree} (hc : Canonical t) (h : Uniform n t) : Fits t := by
  induction hc generalizing n with
  | nil => trivial
  | leaf path value =>
    obtain ⟨hlen, hsize⟩ := h path value (by simp)
    rw [← hlen] at hsize
    exact hsize
  | @ext path children value hp hc ih =>
    obtain ⟨k, v, hk⟩ := hc.exists_key (branch_ne_nil _ _)
    obtain ⟨hlen, hsize⟩ := h (path ++ k) v (by rw [lookup_ext_append, hk])
    rw [length_append] at hlen
    exact ⟨by omega, ih h.below⟩
  | @branch children value hcs hocc ih =>
    refine ⟨fun i => ih i (h.child i), fun v hv => ?_⟩
    have hzero : [].length = n := (h [] v hv).1
    have hchild : ∃ i, children i ≠ .nil := by
      obtain ⟨-, i, hi⟩ | ⟨i, -, -, hi, -⟩ := hocc
      · exact ⟨i, hi⟩
      · exact ⟨i, hi⟩
    obtain ⟨i, hi⟩ := hchild
    obtain ⟨k, w, hk⟩ := (hcs i).exists_key hi
    have hlong : (i :: k).length = n := (h (i :: k) w hk).1
    rw [← hzero] at hlong
    cases hlong

end NibbleTree

namespace MutableTrie

open NibbleTree TrieOp

variable {DB : Type} [TrieDB DB]

def insertAll : List (Bytes × Bytes) → TrieM DB Unit
  | [] => pure ()
  | (key, value) :: rest => do
    insert key value
    insertAll rest

def overriding (pairs : List (Bytes × Bytes)) (m : Bytes → Option Bytes) : Bytes → Option Bytes :=
  pairs.foldl (fun m e => Function.update m e.1 (some e.2)) m

def insertPairs (t : NibbleTree) (pairs : List (Bytes × Bytes)) : NibbleTree :=
  pairs.foldl (fun t e => Radix.insert t (Nibbles.fromBytes e.1) e.2) t

theorem canonical_insertPairs {t : NibbleTree} (h : Radix.Canonical t)
    (pairs : List (Bytes × Bytes)) : Canonical (insertPairs t pairs) := by
  induction pairs generalizing t with
  | nil => exact h
  | cons e pairs ih => exact ih (h.insert _ _)

theorem mapOf_insertPairs {t : NibbleTree} {m : Bytes → Option Bytes} (h : MapOf t m)
    (pairs : List (Bytes × Bytes)) : MapOf (insertPairs t pairs) (overriding pairs m) := by
  induction pairs generalizing t m with
  | nil => exact h
  | cons e pairs ih => exact ih (h.update fun w => lookup_insert t _ w e.2)

theorem mapOf_insertPairs_nil (pairs : List (Bytes × Bytes)) :
    MapOf (insertPairs .nil pairs) (overriding pairs fun _ => none) :=
  mapOf_insertPairs (by simp [MapOf]) pairs

theorem later_insertAll (pairs : List (Bytes × Bytes)) :
    Extends Later (insertAll pairs : TrieM DB Unit) := by
  induction pairs with
  | nil => exact later_pure _
  | cons e pairs ih => exact later_bind (later_insert e.1 e.2) fun _ => ih

variable {P : NibbleTree → Prop} (hfits : ∀ t, Canonical t → P t → Fits t)
  {pairs : List (Bytes × Bytes)}
  (hpairs : ∀ e ∈ pairs, ∀ t, P t → P (Radix.insert t (Nibbles.fromBytes e.1) e.2))

include hfits hpairs

theorem insertAll_storesTree {S : Set Bytes} (hS : CollisionFree S) (h80 : [0x80] ∈ S)
    {T : MutableTrie DB} {t : NibbleTree} (h : StoresTree S T t) (ht : P t)
    (hT : Sound S (finalState (insertAll pairs T))) :
    ∃ T', insertAll pairs T = .ok () T' ∧ StoresTree S T' (insertPairs t pairs) := by
  induction pairs generalizing T t with
  | nil => exact ⟨T, rfl, h⟩
  | cons e pairs ih =>
    have ht' := hpairs e mem_cons_self t ht
    simp only [insertAll] at hT ⊢
    obtain ⟨T₁, hrun, hstores⟩ := insert_storesTree hS h80 h
      (hfits _ (h.canonical.insert _ _) ht') (hT.of_later_bind fun _ => later_insertAll pairs)
    rw [estate_bind_ok hrun] at hT ⊢
    exact ih (fun e he => hpairs e (mem_cons_of_mem _ he)) hstores ht' hT

theorem insertAll_new (db : DB) (hnil : P .nil)
    (hfree : CollisionFree (hashedBytes (finalState (insertAll pairs (new db))))) :
    ∃ T, insertAll pairs (new db) = .ok () T ∧ T.root = rootHash (insertPairs .nil pairs) := by
  have hsound : Sound (hashedBytes (finalState (insertAll pairs (new db))))
      (finalState (insertAll pairs (new db))) := by
    obtain ⟨-, added, hcache, hadded⟩ := later_insertAll pairs (new db)
    intro x hx
    refine ⟨hadded x ?_, mem_cons_of_mem _ (mem_map_of_mem hx)⟩
    rw [hcache] at hx
    simpa [new] using hx
  obtain ⟨T, hrun, hstores⟩ := insertAll_storesTree hfits hpairs hfree
    (emptyString_mem_hashedBytes _) (storesTree_new _ db) hnil hsound
  exact ⟨T, hrun, hstores.root⟩

end MutableTrie

end ZbxChain

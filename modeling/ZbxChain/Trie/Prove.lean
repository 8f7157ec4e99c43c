import ZbxChain.Trie.Proof

/-!
# Making proofs

`prove` of `zbx-trie/src/trie.rs` collects the encoded nodes on the path of a key. The nodes that
stand inside their parent are not collected, and `verify_proof` refuses to step into one, so a
proof can only be complete when every node on the path has a hash of its own.
-/

namespace ZbxChain

open Nibbles Radix MerkleProof RlpStream List TrieOp

structure MerkleProof where
  key : Bytes
  value : Option Bytes
  nodes : List Bytes
  deriving DecidableEq

namespace MutableTrie

variable {DB : Type} [TrieDB DB]

/-- The node behind a reference and what is pushed for it. Nothing is there behind an empty
reference or the hash of the empty trie. -/
def proofNode (t : MutableTrie DB) : NodeRef → TrieResult (Option (TrieNode × List Bytes))
  | .empty => .ok none
  | .hash h =>
    if h = emptyRoot then .ok none
    else
      match t.nodeBytes h with
      | none => .error (.err (.missingNode h))
      | some bytes => do
        let node ← TrieNode.decode bytes
        return some (node, [bytes])
  | .inline node => .ok (some (node, []))

/-- The loop of `prove`: the nodes from here on, and the value at the end. -/
def proveFrom (t : MutableTrie DB) (nibbles : Nibbles) :
    Nat → NodeRef → Nat → TrieResult (List Bytes × Option Bytes)
  | 0, _, _ => .error .panic
  | fuel + 1, r, depth => do
    match ← t.proofNode r with
    | none => return ([], none)
    | some (node, pushed) =>
      match node with
      | .empty => return (pushed, none)
      | .leaf path value =>
        let keyRemaining := nibbles.drop depth
        if commonPrefixLen keyRemaining path = path.length ∧
            path.length = keyRemaining.length then
          return (pushed, some value)
        else return (pushed, none)
      | .extension path child =>
        let cp := commonPrefixLen (nibbles.drop depth) path
        if cp ≠ path.length then return (pushed, none)
        else
          let (nodes, value) ← t.proveFrom nibbles fuel child (depth + cp)
          return (pushed ++ nodes, value)
      | .branch children value =>
        if depth = nibbles.length then return (pushed, value)
        else
          match nibbles[depth]? with
          | none => throw .panic
          | some idx =>
            let (nodes, value) ← t.proveFrom nibbles fuel (children idx) (depth + 1)
            return (pushed ++ nodes, value)

/-- As for `get`, the key and one round more are enough fuel. -/
def prove (t : MutableTrie DB) (key : Bytes) : TrieResult MerkleProof := do
  let nibbles := fromBytes key
  let (nodes, value) ← t.proveFrom nibbles (nibbles.length + 1) (.hash t.root) 0
  return ⟨key, value, nodes⟩

end MutableTrie

/-! ## The nodes on a path -/

namespace NibbleTree

def pathNodes : NibbleTree → Nibbles → List Bytes
  | .nil, _ => []
  | .leaf p v, _ => [bytes (.leaf p v)]
  | .ext p c, k => bytes (.ext p c) :: if p <+: k then pathNodes c (k.drop p.length) else []
  | .branch cs v, [] => [bytes (.branch cs v)]
  | .branch cs v, a :: k => bytes (.branch cs v) :: pathNodes (cs a) k

variable {v : Bytes} {c t : NibbleTree} {k : Nibbles}

theorem refOf_of_long (h : 32 ≤ (bytes c).length) :
    refOf (toNode c) = .hash (keccak256 (bytes c)) := by
  have hne : toNode c ≠ .empty := by
    intro he
    have hshort : (bytes c).length = 1 := by
      unfold bytes
      rw [he]
      rfl
    omega
  rw [refOf_of_ne_empty hne]
  exact if_neg (Nat.not_lt.mpr h)

theorem le_length_item_of_long (h : 32 ≤ (bytes c).length) :
    32 ≤ (refOf (toNode c)).item.length := by
  rw [refOf_of_long h, NodeRef.item]
  have hle := (Rlp.length_stringItem (keccak256 (bytes c)).toBytes).1
  rw [H256.length_toBytes] at hle
  exact hle

theorem le_length_bytes_of_lookup (hv : 32 ≤ v.length) (h : lookup t k = some v) :
    32 ≤ (bytes t).length := by
  induction t generalizing k with
  | nil => cases h
  | leaf p w =>
    rw [lookup_leaf] at h
    split at h
    · cases h
      unfold bytes
      rw [toNode, TrieNode.encode_leaf]
      have hle := hv.trans (Rlp.length_stringItem v).1
      exact hle.trans (Nat.le_of_lt (length_lt_listItem (by simp)))
    · cases h
  | ext p c ih =>
    rw [Radix.lookup_ext] at h
    split at h
    · have hitem := le_length_item_of_long (ih h)
      unfold bytes
      rw [toNode, TrieNode.encode_extension]
      exact hitem.trans (Nat.le_of_lt (length_lt_listItem (by simp)))
    · cases h
  | branch cs w ih =>
    unfold bytes
    rw [toNode, TrieNode.encode_branch]
    cases k with
    | nil =>
      rw [lookup_branch_nil] at h
      subst h
      have hle := hv.trans (Rlp.length_stringItem v).1
      exact hle.trans (Nat.le_of_lt (length_lt_listItem (by simp)))
    | cons a k =>
      rw [lookup_branch_cons] at h
      have hitem := le_length_item_of_long (ih a h)
      refine hitem.trans (Nat.le_of_lt (length_lt_listItem ?_))
      exact mem_append_left _ (mem_map.mpr ⟨a, mem_finRange a, rfl⟩)

def HashLinked : NibbleTree → Nibbles → Prop
  | .ext p c, k => p <+: k → 32 ≤ (bytes c).length ∧ HashLinked c (k.drop p.length)
  | .branch cs _, a :: k => cs a ≠ .nil → 32 ≤ (bytes (cs a)).length ∧ HashLinked (cs a) k
  | _, _ => True

theorem linked_of_lookup (hv : 32 ≤ v.length) (h : lookup t k = some v) : HashLinked t k := by
  induction t generalizing k with
  | nil => trivial
  | leaf p w => trivial
  | ext p c ih =>
    intro hp
    rw [Radix.lookup_ext, if_pos hp] at h
    exact ⟨le_length_bytes_of_lookup hv h, ih h⟩
  | branch cs w ih =>
    cases k with
    | nil => trivial
    | cons a k => exact fun _ => ⟨le_length_bytes_of_lookup hv h, ih a h⟩

def LongValues (t : NibbleTree) : Prop := ∀ k v, lookup t k = some v → 32 ≤ v.length

theorem LongValues.le_length_bytes (h : LongValues t) (hcanon : Canonical t) (hne : t ≠ .nil) :
    32 ≤ (bytes t).length := by
  obtain ⟨k, v, hk⟩ := hcanon.exists_key hne
  exact le_length_bytes_of_lookup (h k v hk) hk

theorem LongValues.linked (h : LongValues t) (hcanon : Canonical t) (k : Nibbles) :
    HashLinked t k := by
  induction t generalizing k with
  | nil => trivial
  | leaf p w => trivial
  | ext p c ih =>
    intro _
    have hchild : LongValues c := fun k v hk => h (p ++ k) v (by rwa [lookup_ext_append])
    have hc := hcanon.ext_inv.2
    have hne : c ≠ .nil := by
      cases hcanon with
      | ext _ _ => exact branch_ne_nil _ _
    exact ⟨hchild.le_length_bytes hc hne, ih hchild hc _⟩
  | branch cs w ih =>
    cases k with
    | nil => trivial
    | cons a k =>
      intro hne
      have hchild : LongValues (cs a) := fun k v hk => h (a :: k) v hk
      have hc := hcanon.child a
      exact ⟨hchild.le_length_bytes hc hne, ih a hchild hc k⟩

theorem ne_nil_of_long (h : 32 ≤ (bytes t).length) : t ≠ .nil := by
  rintro rfl
  exact absurd h (by decide)

end NibbleTree

/-! ## Completeness -/

namespace MerkleProof

open NibbleTree MutableTrie

variable {key : Bytes} {t : NibbleTree}

theorem verifyFrom_pathNodes (nibbles : Nibbles) (depth : Nat) (hne : t ≠ .nil) (hfits : Fits t)
    (hlinked : HashLinked t (nibbles.drop depth)) (hdepth : depth ≤ nibbles.length) :
    verifyFrom nibbles (lookup t (nibbles.drop depth)) depth (keccak256 (bytes t))
      (pathNodes t (nibbles.drop depth)) = .ok true := by
  induction t generalizing depth with
  | nil => exact absurd rfl hne
  | leaf p w =>
    simp only [pathNodes, verifyFrom, ne_eq, not_true_eq_false, if_false, decode_toNode hfits,
      toNode, lookup_leaf]
    have hmatch : (commonPrefixLen (nibbles.drop depth) p = p.length ∧
        depth + commonPrefixLen (nibbles.drop depth) p = nibbles.length) ↔
        nibbles.drop depth = p := by
      rw [← exact_match_iff, length_drop]
      omega
    by_cases hk : nibbles.drop depth = p
    · rw [if_pos (hmatch.mpr hk), if_pos hk, beq_self_eq_true]
    · rw [if_neg (hmatch.not.mpr hk), if_neg hk, Option.isNone_none]
  | ext p c ih =>
    have hcp := commonPrefixLen_eq_right_iff (nibbles.drop depth) p
    simp only [pathNodes, verifyFrom, ne_eq, not_true_eq_false, if_false, decode_toNode hfits,
      toNode, Radix.lookup_ext]
    by_cases hp : p <+: nibbles.drop depth
    · obtain ⟨hlong, hbelow⟩ := hlinked hp
      obtain ⟨hdrop, -⟩ := drop_add_of_prefix hp
      have hle := hp.length_le
      rw [length_drop] at hle
      rw [← hdrop] at hbelow
      simp only [if_pos hp, hcp.mpr hp, not_true_eq_false, if_false, refOf_of_long hlong,
        followChild]
      rw [← hdrop]
      exact ih _ (ne_nil_of_long hlong) hfits.2 hbelow (by omega)
    · rw [if_neg hp, if_pos (hcp.not.mpr hp), Option.isNone_none]
  | branch cs w ih =>
    cases hkey : nibbles.drop depth with
    | nil =>
      have hend := (drop_eq_nil_iff_depth hdepth).mpr hkey
      simp only [pathNodes, verifyFrom, ne_eq, not_true_eq_false, if_false, decode_toNode hfits,
        toNode, if_pos hend, lookup_branch_nil, beq_self_eq_true]
    | cons a k =>
      obtain ⟨hget, hdrop, hnext, hlt⟩ := getElem?_of_drop hkey
      simp only [pathNodes, verifyFrom, ne_eq, not_true_eq_false, if_false, decode_toNode hfits,
        toNode, if_neg hlt, hget, lookup_branch_cons]
      by_cases hnil : cs a = .nil
      · rw [hnil]
        rfl
      rw [hkey] at hlinked
      obtain ⟨hlong, hbelow⟩ := hlinked hnil
      rw [← hdrop] at hbelow
      simp only [refOf_of_long hlong, followChild]
      rw [← hdrop]
      exact ih a _ hnil (hfits.1 a) hbelow hnext

theorem pathNodes_ne_nil (h : t ≠ .nil) (k : Nibbles) : pathNodes t k ≠ [] := by
  cases t with
  | nil => exact absurd rfl h
  | leaf p v | ext p c => exact cons_ne_nil _ _
  | branch cs v =>
    cases k with
    | nil | cons a k => exact cons_ne_nil _ _

theorem verifyProof_of_linked (hne : t ≠ .nil) (hfits : Fits t)
    (hlinked : HashLinked t (fromBytes key)) :
    verifyProof (keccak256 (bytes t)) key (lookup t (fromBytes key))
      (pathNodes t (fromBytes key)) = .ok true := by
  have hrun := verifyFrom_pathNodes (fromBytes key) 0 hne hfits hlinked (Nat.zero_le _)
  rw [drop_zero] at hrun
  cases hnodes : pathNodes t (fromBytes key) with
  | nil => exact absurd hnodes (pathNodes_ne_nil hne _)
  | cons e rest =>
    rw [hnodes] at hrun
    exact hrun

theorem verifyProof_pathNodes {v : Bytes} (hfits : Fits t) (hv : 32 ≤ v.length)
    (h : lookup t (fromBytes key) = some v) :
    verifyProof (keccak256 (bytes t)) key (some v) (pathNodes t (fromBytes key)) = .ok true := by
  have hne : t ≠ .nil := by
    rintro rfl
    cases h
  rw [← h]
  exact verifyProof_of_linked hne hfits (linked_of_lookup hv h)

end MerkleProof

/-! ## What `prove` collects -/

namespace MutableTrie

open NibbleTree

variable {DB : Type} [TrieDB DB] {S : Set Bytes} (hS : CollisionFree S) (h80 : [0x80] ∈ S)
  {T : MutableTrie DB} {key : Bytes} {t : NibbleTree}

include hS h80 in
theorem proofNode_of_held (hne : t ≠ .nil) (hfits : Fits t) (hheld : Held S T (bytes t)) :
    T.proofNode (.hash (keccak256 (bytes t))) = .ok (some (toNode t, [bytes t])) := by
  have hroot : keccak256 (bytes t) ≠ emptyRoot := by
    intro he
    rw [← keccak256_emptyString] at he
    have hlen := one_lt_length_bytes hne
    rw [hS.eq hheld.1 h80 he] at hlen
    exact absurd hlen (by decide)
  simp only [proofNode, if_neg hroot, hheld.2, decode_toNode hfits, ok_bind, pure_eq_ok]

include hS h80 in
theorem proveFrom_spec (nibbles : Nibbles) (depth : Nat) {fuel : Nat} (hne : t ≠ .nil)
    (hcanon : Canonical t) (hfits : Fits t) (hclosed : Closed S T t)
    (hheld : Held S T (bytes t)) (hlinked : HashLinked t (nibbles.drop depth))
    (hdepth : depth ≤ nibbles.length) (hfuel : (nibbles.drop depth).length < fuel) :
    T.proveFrom nibbles fuel (.hash (keccak256 (bytes t))) depth =
      .ok (pathNodes t (nibbles.drop depth), lookup t (nibbles.drop depth)) := by
  obtain ⟨fuel, rfl⟩ := succ_of_lt hfuel
  have hnode := proofNode_of_held hS h80 hne hfits hheld
  induction t generalizing depth fuel with
  | nil => exact absurd rfl hne
  | leaf p w =>
    simp only [proveFrom, hnode, ok_bind, toNode, pathNodes, exact_match_iff, pure_eq_ok,
      lookup_leaf]
    split <;> rfl
  | ext p c ih =>
    have hcp := commonPrefixLen_eq_right_iff (nibbles.drop depth) p
    simp only [proveFrom, hnode, ok_bind, toNode, pathNodes, Radix.lookup_ext, pure_eq_ok]
    by_cases hp : p <+: nibbles.drop depth
    · obtain ⟨hlong, hbelow⟩ := hlinked hp
      obtain ⟨hdrop, hlen⟩ := drop_add_of_prefix hp
      have hpos := length_pos_iff.mpr hcanon.ext_inv.1
      have hle := hp.length_le
      rw [length_drop] at hle
      have hc := closed_ext.mp hclosed
      have hcne := ne_nil_of_long hlong
      rw [← hdrop] at hbelow
      have hchild := ih _ hcne hcanon.ext_inv.2 hfits.2 hc.2 (hc.1 hlong) hbelow (by omega) (fuel - 1)
        (by omega) (proofNode_of_held hS h80 hcne hfits.2 (hc.1 hlong))
      rw [show fuel - 1 + 1 = fuel by omega] at hchild
      simp only [if_pos hp, hcp.mpr hp, ne_eq, not_true_eq_false, if_false, refOf_of_long hlong,
        hchild, ok_bind, ← hdrop, cons_append, nil_append]
    · rw [if_pos (hcp.not.mpr hp), if_neg hp, if_neg hp]
  | branch cs w ih =>
    cases hkey : nibbles.drop depth with
    | nil =>
      have hend := (drop_eq_nil_iff_depth hdepth).mpr hkey
      simp only [proveFrom, hnode, ok_bind, toNode, pathNodes, if_pos hend, pure_eq_ok,
        lookup_branch_nil]
    | cons a k =>
      obtain ⟨hget, hdrop, hnext, hlt⟩ := getElem?_of_drop hkey
      rw [hkey, length_cons] at hfuel
      simp only [proveFrom, hnode, ok_bind, toNode, pathNodes, if_neg hlt, hget, pure_eq_ok,
        lookup_branch_cons]
      obtain ⟨fuel, rfl⟩ := succ_of_lt (Nat.lt_of_succ_lt_succ hfuel)
      by_cases hnil : cs a = .nil
      · rw [hnil]
        rfl
      rw [hkey] at hlinked
      obtain ⟨hlong, hbelow⟩ := hlinked hnil
      have hc := closed_branch.mp hclosed a
      rw [← hdrop] at hbelow
      have hchild := ih a _ hnil (hcanon.child a) (hfits.1 a) hc.2 (hc.1 hlong) hbelow hnext fuel
        (by rw [hdrop]; omega) (proofNode_of_held hS h80 hnil (hfits.1 a) (hc.1 hlong))
      simp only [refOf_of_long hlong, hchild, ok_bind, hdrop, cons_append, nil_append]

include hS h80 in
theorem Represents.prove_of_linked (hrep : Represents S T t)
    (hlinked : HashLinked t (fromBytes key)) : T.prove key = .ok ⟨key, lookup t (fromBytes key),
        pathNodes t (fromBytes key)⟩ ∧ verifyProof T.root key (lookup t (fromBytes key))
        (pathNodes t (fromBytes key)) = .ok true := by
  unfold MutableTrie.prove
  by_cases hne : t = .nil
  · -- nothing is pushed for the empty trie, and no node proves that nothing is there
    have hroot := (hrep.root_eq_emptyRoot_iff hS h80).mpr hne
    subst hne
    simp only [hroot, proveFrom, proofNode, if_pos, ok_bind, pure_eq_ok]
    exact ⟨rfl, by simp [verifyProof, pathNodes]⟩
  have hfits := hrep.sized.fits hrep.canonical
  have hroot : T.root = keccak256 (bytes t) := by rw [hrep.root, rootHash_of_ne_nil hne]
  have hrun := proveFrom_spec hS h80 (fromBytes key) 0 hne hrep.canonical hfits
    hrep.closed (hrep.held hne) hlinked (Nat.zero_le _) (Nat.lt_succ_self _)
  rw [drop_zero] at hrun
  refine ⟨by simp only [hroot, hrun, ok_bind, pure_eq_ok], ?_⟩
  rw [hroot]
  exact verifyProof_of_linked hne hfits hlinked

include hS h80 in
theorem Represents.prove (hrep : Represents S T t) {v : Bytes} (hv : 32 ≤ v.length)
    (h : lookup t (fromBytes key) = some v) :
    T.prove key = .ok ⟨key, some v, pathNodes t (fromBytes key)⟩ ∧
      verifyProof T.root key (some v) (pathNodes t (fromBytes key)) = .ok true := by
  rw [← h]
  exact hrep.prove_of_linked hS h80 (linked_of_lookup hv h)

def StoresLong (T : MutableTrie DB) : Prop :=
  ∃ t, Represents T.readable T t ∧ LongValues t

/-- **Proofs are complete.** For every key, present or not, `prove` returns what `get` returns,
with nodes that are accepted. -/
theorem prove_complete (hT : T.StoresLong) (hfree : CollisionFree T.readable) (key : Bytes) :
    ∃ proof, T.prove key = .ok proof ∧ proof.key = key ∧ T.get key = .ok proof.value ∧
      verifyProof T.root key proof.value proof.nodes = .ok true := by
  obtain ⟨t, hrep, hlong⟩ := hT
  have h80 : [0x80] ∈ T.readable := .inl rfl
  obtain ⟨hprove, haccept⟩ := hrep.prove_of_linked hfree h80 (hlong.linked hrep.canonical _)
  exact ⟨_, hprove, rfl, hrep.get hfree h80 key, haccept⟩

theorem storesLong_history (db : DB) (ops : List TrieOp)
    (hfree : CollisionFree (hashedBytes (runAll ops (new db)).2))
    (hlong : ∀ key v, mapAfter ops (fun _ => none) key = some v → 32 ≤ v.length) :
    (runAll ops (new db)).2.StoresLong := by
  obtain ⟨-, t, hrep, hmap⟩ := (models_new _ db).runAll hfree
    (emptyString_mem_hashedBytes _) ops (sound_runAll_new db ops subset_rfl)
  refine ⟨t, hrep.readable, fun k v hk => ?_⟩
  obtain ⟨key, -, hkey⟩ := (hmap k v).mp hk
  exact hlong key v hkey

theorem prove_complete_longTrie :
    ∃ proof, longTrie.prove [0x12] = .ok proof ∧ proof.value = some (replicate 32 1) ∧
      verifyProof longTrie.root [0x12] proof.value proof.nodes = .ok true := by
  have hfree : CollisionFree (hashedBytes longTrie) := collisionFree_of_nodup (by decide +kernel)
  have hlong : ∀ key v, mapAfter longHistory (fun _ => none) key = some v →
      32 ≤ v.length := by
    intro key v hv
    change Function.update (Function.update (fun _ => none) [0x12] (some (replicate 32 1))) [0x13]
      (some (replicate 32 2)) key = some v at hv
    simp only [Function.update_apply] at hv
    split at hv
    · rw [← Option.some.inj hv, length_replicate]
    split at hv
    · rw [← Option.some.inj hv, length_replicate]
    · cases hv
  obtain ⟨proof, hprove, -, hget, haccept⟩ := prove_complete (storesLong_history _ _ hfree hlong)
    (hfree.mono (readable_history _)) [0x12]
  have hvalue : longTrie.get [0x12] = .ok (some (replicate 32 1)) := by decide +kernel
  exact ⟨proof, hprove, Except.ok.inj (hget.symm.trans hvalue), haccept⟩

end MutableTrie

end ZbxChain

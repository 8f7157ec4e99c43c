import ZbxChain.Execution.Executor
import ZbxChain.Trie.Prove
import ZbxChain.Trie.Uniform

/-!
# The trie of transactions as a radix tree

`zbx-crypto/src/mpt.rs` has a trie of its own, written apart from that of `zbx-trie`. Both are
path-compressed radix trees over nibbles with the same node encodings.
-/

namespace ZbxChain.TxTrie

open NibbleTree RlpStream List Nibbles

def Node.toTree : Node → NibbleTree
  | .empty => .nil
  | .leaf path value => .leaf path value
  | .extension path child => .ext path child.toTree
  | .branch children value => .branch (fun i => (children i).toTree) value

/-! ## Encodings -/

theorem embed_eq_item {n : Node} (h : nodeRlp n = bytes n.toTree) :
    embed (nodeRlp n) = (refOf (toNode n.toTree)).item := by
  rw [h]
  by_cases hnil : n.toTree = .nil
  · rw [hnil]
    rfl
  rw [refOf_of_ne_empty (toNode_ne_empty hnil)]
  unfold embed bytes
  split
  · rfl
  · rfl

theorem nodeRlp_eq_bytes (n : Node) : nodeRlp n = bytes n.toTree := by
  induction n with
  | empty => rfl
  | leaf path value =>
    unfold bytes
    rw [Node.toTree, toNode, TrieNode.encode_leaf]
    simp [nodeRlp, rlpList]
  | extension path child ih =>
    unfold bytes
    rw [Node.toTree, toNode, TrieNode.encode_extension, ← embed_eq_item ih]
    simp [nodeRlp, rlpList]
  | branch children value ih =>
    have hitems : (fun i => (refOf (toNode (children i).toTree)).item) =
        fun i => embed (nodeRlp (children i)) := by
      funext i
      exact (embed_eq_item (ih i)).symm
    unfold bytes
    rw [Node.toTree, toNode, TrieNode.encode_branch, hitems]
    have hvalue : (value.map rlpBytes).getD [0x80] = stringItem (value.getD []) := by
      cases value <;> rfl
    simp [nodeRlp, rlpList, hvalue]

/-! ## Insertion -/

variable (children : Nibble → Node)

theorem toTree_update (i : Nibble) (n : Node) : (fun j => (Function.update children i n j).toTree) =
      Function.update (fun j => (children j).toTree) i n.toTree := by
  funext j
  by_cases hj : j = i
  · subst hj
    simp
  · simp [hj]

def toFan (fan : (Nibble → Node) × Option Bytes) : Radix.Fan Nibble Bytes :=
  (fun i => (fan.1 i).toTree, fan.2)

theorem toFan_hang (own : Option Bytes) (path : Nibbles) (value : Bytes) :
    toFan (hang children own path value) = Radix.place (toFan (children, own)) path value := by
  cases path with
  | nil => rfl
  | cons i rest =>
    unfold hang toFan Radix.place
    rw [toTree_update]
    rfl

variable (path : Nibbles)

theorem toTree_wrap (fan : (Nibble → Node) × Option Bytes) :
    (wrapWithExtension path (.branch fan.1 fan.2)).toTree = Radix.wrap path (toFan fan) := by
  cases path with
  | nil => rfl
  | cons a path => rfl

theorem toTree_wrapWithExtension (n : Node) :
    (wrapWithExtension path n).toTree = Radix.hang path n.toTree := by
  cases path with
  | nil => rfl
  | cons a path => rfl

theorem take_right (k p : Nibbles) : p.take (commonPrefixLen k p) = Radix.commonPrefix k p := by
  obtain ⟨-, p', -, hp, -⟩ := Radix.commonPrefix_spec k p
  unfold commonPrefixLen
  generalize Radix.commonPrefix k p = c at hp ⊢
  rw [hp, take_left]

theorem drop_commonPrefixLen_eq_nil (k p : Nibbles) :
    p.drop (commonPrefixLen k p) = [] ↔ p <+: k := by
  rw [drop_eq_nil_iff, ← MutableTrie.commonPrefixLen_eq_right_iff]
  obtain ⟨-, p', -, hp, -⟩ := Radix.commonPrefix_spec k p
  have hlen := congrArg length hp
  rw [length_append] at hlen
  unfold commonPrefixLen
  omega

theorem toTree_insert_leaf (value value' : Bytes) (path path' : Nibbles) :
    (insert value (.leaf path' value') path).toTree =
      Radix.insert (.leaf path' value') path value := by
  have hmatch : (commonPrefixLen path path' = path'.length ∧
      commonPrefixLen path path' = path.length) ↔ path' = path := by
    have hiff := MutableTrie.exact_match_iff path path'
    constructor
    · intro h
      exact (hiff.mp ⟨h.1, h.1.symm.trans h.2⟩).symm
    intro h
    obtain ⟨hl, hr⟩ := hiff.mpr h.symm
    exact ⟨hl, hl.trans hr⟩
  simp only [insert, Radix.insert, hmatch]
  split
  · rfl
  · rw [toTree_wrap, toFan_hang, toFan_hang, take_right]
    rfl

theorem toTree_insert_extension {value : Bytes} {path path' : Nibbles} {child : Node}
    (ih : ∀ path, (insert value child path).toTree = Radix.insert child.toTree path value) :
    (insert value (.extension path' child) path).toTree =
      Radix.insert (.ext path' child.toTree) path value := by
  simp only [insert, Radix.insert, commonLen]
  by_cases hp : path' <+: path
  · rw [(drop_commonPrefixLen_eq_nil path path').mpr hp, if_pos hp,
      (MutableTrie.commonPrefixLen_eq_right_iff path path').mpr hp]
    dsimp only [Node.toTree]
    rw [ih]
  rw [if_neg hp]
  cases hdrop : path'.drop (commonPrefixLen path path') with
  | nil => exact absurd ((drop_commonPrefixLen_eq_nil path path').mp hdrop) hp
  | cons i rest =>
    have hdrop' : path'.drop (Radix.commonPrefix path path').length = i :: rest := hdrop
    rw [hdrop']
    rw [toTree_wrap, toFan_hang, take_right]
    have hfan : toFan (Function.update noChildren i (wrapWithExtension rest child), none) =
        (Function.update (fun _ => .nil) i (Radix.hang rest child.toTree), none) := by
      unfold toFan
      rw [toTree_update, toTree_wrapWithExtension]
      rfl
    rw [hfan]
    rfl

theorem toTree_insert (value : Bytes) (n : Node) (path : Nibbles) :
    (insert value n path).toTree = Radix.insert n.toTree path value := by
  induction n generalizing path with
  | empty => rfl
  | leaf path' value' => exact toTree_insert_leaf value value' path path'
  | extension path' child ih => exact toTree_insert_extension ih
  | branch children own ih =>
    cases path with
    | nil => rfl
    | cons i rest =>
      simp only [insert, Node.toTree, Radix.insert]
      rw [toTree_update, ih]

/-! ## The tree of a list of hashes -/

def hashItem (hash : H256) : Bytes := stringItem hash.toBytes

theorem length_hashItem (hash : H256) :
    32 ≤ (hashItem hash).length ∧ (hashItem hash).length ≤ 41 := by
  have hlength := Rlp.length_stringItem hash.toBytes
  rwa [H256.length_toBytes] at hlength

theorem length_indexKey_le (i : Nat) : (indexKey i).length ≤ 34 := by
  have hle := Rlp.length_stringItem (minimalBytes i)
  have hmin := length_minimalBytes_le i
  rw [indexKey, length_fromBytes, rlpUint64_eq]
  omega

theorem indexKey_inj {i j : Nat} (hi : i < usizeBound) (hj : j < usizeBound)
    (h : indexKey i = indexKey j) : i = j := by
  have hitem := fromBytes_injective h
  rw [rlpUint64_eq, rlpUint64_eq] at hitem
  have hfit : ∀ n, (stringItem (minimalBytes n)).length < usizeBound := by
    intro n
    have hle := Rlp.length_stringItem (minimalBytes n)
    have hmin := length_minimalBytes_le n
    unfold usizeBound
    omega
  have hbytes := Rlp.asBytes_stringItem (hfit i)
  rw [hitem, Rlp.asBytes_stringItem (hfit j)] at hbytes
  rw [← beNat_minimalBytes hi, ← beNat_minimalBytes hj,
    Except.ok.inj hbytes]

def insertEntry (t : NibbleTree) (entry : H256 × Nat) : NibbleTree :=
  Radix.insert t (indexKey entry.2) (hashItem entry.1)

def txTree (hashes : List H256) : NibbleTree := hashes.zipIdx.foldl insertEntry .nil

variable (entries : List (H256 × Nat))

theorem toTree_foldl (n : Node) :
    (entries.foldl insertAt n).toTree = entries.foldl insertEntry n.toTree := by
  induction entries generalizing n with
  | nil => rfl
  | cons e entries ih =>
    rw [foldl_cons, foldl_cons, ih]
    unfold insertAt insertEntry
    rw [toTree_insert]
    rfl

variable (hashes : List H256)

theorem root_eq : root hashes = keccak256 (bytes (txTree hashes)) := by
  unfold root txTree
  rw [nodeRlp_eq_bytes, toTree_foldl]
  rfl

theorem sized_foldl {t : NibbleTree} (hcanon : Radix.Canonical t) (hsized : Sized t) :
    Radix.Canonical (entries.foldl insertEntry t) ∧ Sized (entries.foldl insertEntry t) := by
  induction entries generalizing t with
  | nil => exact ⟨hcanon, hsized⟩
  | cons e entries ih =>
    obtain ⟨hlow, hhigh⟩ := length_hashItem e.1
    have hkey := length_indexKey_le e.2
    have hne : hashItem e.1 ≠ [] := by
      intro hnil
      rw [hnil] at hlow
      exact absurd hlow (by decide)
    exact ih (hcanon.insert _ _) (hsized.insert hne (by omega))

theorem fits_txTree : Fits (txTree hashes) := by
  have hsized : Sized .nil := by
    intro k v h
    cases h
  obtain ⟨hcanon, hsized⟩ := sized_foldl hashes.zipIdx .nil hsized
  exact hsized.fits hcanon

theorem lookup_foldl_of_notMem {entries : List (H256 × Nat)} {i : Nat} (hi : i < usizeBound)
    (hentries : ∀ e ∈ entries, e.2 < usizeBound ∧ e.2 ≠ i) (t : NibbleTree) :
    Radix.lookup (entries.foldl insertEntry t) (indexKey i) = Radix.lookup t (indexKey i) := by
  induction entries generalizing t with
  | nil => rfl
  | cons e entries ih =>
    obtain ⟨hlt, hne⟩ := hentries e mem_cons_self
    have hkey : indexKey i ≠ indexKey e.2 := fun h => hne (indexKey_inj hi hlt h).symm
    rw [foldl_cons, ih fun x hx => hentries x (mem_cons_of_mem _ hx)]
    unfold insertEntry
    rw [Radix.lookup_insert, if_neg hkey]

theorem lookup_foldl_zipIdx (start : Nat) (t : NibbleTree)
    (hfit : start + hashes.length ≤ usizeBound) {i : Nat} {hash : H256}
    (hget : hashes[i]? = some hash) :
    Radix.lookup ((hashes.zipIdx start).foldl insertEntry t) (indexKey (start + i)) =
      some (hashItem hash) := by
  induction hashes generalizing start t i with
  | nil => cases hget
  | cons h hashes ih =>
    rw [length_cons] at hfit
    rw [zipIdx_cons, foldl_cons]
    cases i with
    | zero =>
      cases hget
      have hothers : ∀ e ∈ hashes.zipIdx (start + 1), e.2 < usizeBound ∧ e.2 ≠ start := by
        intro e he
        obtain ⟨hge, hlt, -⟩ := mem_zipIdx he
        exact ⟨by omega, by omega⟩
      show Radix.lookup _ (indexKey start) = _
      rw [lookup_foldl_of_notMem (by omega) hothers]
      unfold insertEntry
      rw [Radix.lookup_insert, if_pos rfl]
    | succ i =>
      have hstep := ih (start + 1) (insertEntry t (h, start)) (by omega) hget
      have hindex : start + 1 + i = start + (i + 1) := by omega
      rw [hindex] at hstep
      exact hstep

theorem lookup_txTree {hashes : List H256} (hfit : hashes.length ≤ usizeBound) {i : Nat}
    {hash : H256} (hget : hashes[i]? = some hash) :
    Radix.lookup (txTree hashes) (indexKey i) = some (hashItem hash) := by
  have hlookup := lookup_foldl_zipIdx hashes 0 .nil (by omega) hget
  rw [Nat.zero_add] at hlookup
  exact hlookup

theorem verifyProof_txTree {hashes : List H256} (hfit : hashes.length ≤ usizeBound) {i : Nat}
    {hash : H256} (hget : hashes[i]? = some hash) :
    MerkleProof.verifyProof (root hashes) (stringItem (minimalBytes i))
      (some (hashItem hash)) (pathNodes (txTree hashes) (indexKey i)) = .ok true := by
  rw [root_eq, ← rlpUint64_eq]
  exact MerkleProof.verifyProof_pathNodes (fits_txTree hashes) (length_hashItem hash).1
    (lookup_txTree hfit hget)

end ZbxChain.TxTrie

/-!
## Two tries, one root

The root of key-value pairs is computed twice in the repository: by `trie_root_from_pairs` of
`zbx-crypto/src/mpt.rs`, which builds the nodes in memory and hashes them at the end, and by the
trie of `zbx-trie`, which hashes every node as it is written and reads nodes back by their hashes.
-/

namespace ZbxChain

namespace TxTrie

open NibbleTree MutableTrie

end TxTrie

namespace MutableTrie

open NibbleTree TxTrie

variable {DB : Type} [TrieDB DB]

end MutableTrie

end ZbxChain

import ZbxChain.Trie.History

/-!
# Merkle proofs

`verify_proof` of `zbx-trie/src/proof.rs` follows a list of encoded nodes from the
root hash along a key. An accepted proof says what the trie says: as long as
`keccak256` does not collide between the trie's nodes and the given ones, each
accepted string is the trie's own node on that path (`verifyFrom_sound`,
`verifyProof_sound`). Nothing is assumed about where the list comes from.
-/

namespace ZbxChain

open TrieOp Nibbles Radix Except

namespace MerkleProof

/-- The step to a child: a hash is expected next, an empty slot shows absence, and
inline children are not supported. -/
def followChild (expected : Option Bytes) (next : H256 → TrieResult Bool) (child : NodeRef) :
    TrieResult Bool :=
  match child with
  | .hash h => next h
  | .empty => .ok expected.isNone
  | .inline _ => .ok false

/-- The loop over the proof's nodes, from `depth` on and expecting `hash` next. A
node that does not decode refutes the proof; a panic of the decoder is a panic. -/
def verifyFrom (nibbles : Nibbles) (expected : Option Bytes) :
    Nat → H256 → List Bytes → TrieResult Bool
  | _, _, [] => .ok false
  | depth, hash, encoded :: rest =>
    if keccak256 encoded ≠ hash then .ok false
    else
      match TrieNode.decode encoded with
      | .error (.err _) => .ok false
      | .error .panic => .error .panic
      | .ok .empty => .ok expected.isNone
      | .ok (.leaf path value) =>
        let cp := commonPrefixLen (nibbles.drop depth) path
        if cp = path.length ∧ depth + cp = nibbles.length then .ok (expected == some value)
        else .ok expected.isNone
      | .ok (.extension path child) =>
        let cp := commonPrefixLen (nibbles.drop depth) path
        if cp ≠ path.length then .ok expected.isNone
        else followChild expected (fun h => verifyFrom nibbles expected (depth + cp) h rest) child
      | .ok (.branch children value) =>
        if depth = nibbles.length then
          if rest ≠ [] then .ok false else .ok (expected == value)
        else
          match nibbles[depth]? with
          | none => .error .panic
          | some idx =>
            followChild expected (fun h => verifyFrom nibbles expected (depth + 1) h rest)
              (children idx)

def verifyProof (root : H256) (key : Bytes) (expected : Option Bytes) (nodes : List Bytes) :
    TrieResult Bool :=
  match nodes with
  | [] => .ok (root == emptyRoot && expected.isNone)
  | nodes => verifyFrom (fromBytes key) expected 0 root nodes

end MerkleProof

namespace MutableTrie

variable {DB : Type} [TrieDB DB]

def readable (T : MutableTrie DB) : Set Bytes :=
  {e | e = [0x80] ∨ ∃ h, T.nodeBytes h = some e}

def WellFormed (T : MutableTrie DB) : Prop :=
  ∃ t, Represents T.readable T t

variable {e : Bytes} {T : MutableTrie DB} {t : NibbleTree} {S S' : Set Bytes}

theorem Held.readable (h : Held S T e) : Held T.readable T e :=
  ⟨.inr ⟨_, h.2⟩, h.2⟩

theorem Held.subset (h : Held S T e) (hsub : S ⊆ S') : Held S' T e :=
  ⟨hsub h.1, h.2⟩

theorem Represents.readable (h : Represents S T t) : Represents T.readable T t where
  canonical := h.canonical
  sized := h.sized
  closed := fun e he => (h.closed e he).readable
  root := h.root
  held := fun hne => (h.held hne).readable

theorem Represents.subset (h : Represents S T t) (hsub : S ⊆ S') : Represents S' T t where
  canonical := h.canonical
  sized := h.sized
  closed := fun e he => (h.closed e he).subset hsub
  root := h.root
  held := fun hne => (h.held hne).subset hsub

theorem wellFormed_history (db : DB) (ops : List TrieOp)
    (hfree : CollisionFree (hashedBytes (runAll ops (new db)).2)) :
    (runAll ops (new db)).2.WellFormed := by
  obtain ⟨-, t, hrep, -⟩ := (models_new _ db).runAll hfree
    (emptyString_mem_hashedBytes _) ops (sound_runAll_new db ops subset_rfl)
  exact ⟨t, hrep.readable⟩

end MutableTrie

namespace MerkleProof

open MutableTrie NibbleTree

variable {DB : Type} [TrieDB DB] {S : Set Bytes} (hS : CollisionFree S) {T : MutableTrie DB}
  {expected : Option Bytes}

omit [TrieDB DB] in
theorem isNone_of_ok_isNone (h : (ok expected.isNone : TrieResult Bool) = .ok true) :
    expected = none :=
  Option.isNone_iff_eq_none.mp (ok.inj h)

omit [TrieDB DB] in
theorem followChild_sound {next : H256 → TrieResult Bool} {c : NibbleTree} {k : Nibbles}
    (hnext : c ≠ .nil → 32 ≤ (bytes c).length → next (keccak256 (bytes c)) = .ok true →
      lookup c k = expected) (h : followChild expected next (refOf (toNode c)) = .ok true) :
    lookup c k = expected := by
  by_cases hnil : c = .nil
  · subst hnil
    exact (isNone_of_ok_isNone h).symm
  rw [refOf_of_ne_empty (toNode_ne_empty hnil)] at h
  split at h
  · exact absurd (ok.inj h) (by decide)
  · next hlong => exact hnext hnil (Nat.not_lt.mp hlong) h

include hS in
theorem verifyFrom_sound {nibbles : Nibbles} {nodes : List Bytes} {t : NibbleTree} {depth : Nat}
    (hne : t ≠ .nil) (hfits : Fits t) (hclosed : Closed S T t) (hmem : bytes t ∈ S)
    (hnodes : ∀ e ∈ nodes, e ∈ S) (hdepth : depth ≤ nibbles.length)
    (h : verifyFrom nibbles expected depth (keccak256 (bytes t)) nodes = .ok true) :
    lookup t (nibbles.drop depth) = expected := by
  induction nodes generalizing t depth with
  | nil => exact absurd (ok.inj h) (by decide)
  | cons encoded rest ih =>
    have hencoded : encoded = bytes t := by
      by_contra hdiff
      have hhash : keccak256 encoded ≠ keccak256 (bytes t) :=
        fun he => hdiff (hS.eq (hnodes encoded (by simp)) hmem he)
      simp [verifyFrom, hhash] at h
    subst hencoded
    simp only [verifyFrom, ne_eq, not_true_eq_false, if_false, decode_toNode hfits] at h
    have hrest : ∀ e ∈ rest, e ∈ S := fun e he => hnodes e (by simp [he])
    cases t with
    | nil => exact absurd rfl hne
    | leaf p v =>
      have hmatch : (commonPrefixLen (nibbles.drop depth) p = p.length ∧
          depth + commonPrefixLen (nibbles.drop depth) p = nibbles.length) ↔
            nibbles.drop depth = p := by
        rw [← exact_match_iff, List.length_drop]
        omega
      simp only [toNode, hmatch] at h
      rw [lookup_leaf]
      split at h
      · next hk =>
        rw [if_pos hk]
        exact (eq_of_beq (ok.inj h)).symm
      · next hk =>
        rw [if_neg hk]
        exact (isNone_of_ok_isNone h).symm
    | ext p c =>
      simp only [toNode, commonPrefixLen_eq_right_iff] at h
      rw [lookup_ext]
      split at h
      · next hp =>
        rw [if_neg hp]
        exact (isNone_of_ok_isNone h).symm
      · next hp =>
        rw [not_not] at hp
        obtain ⟨hdrop, -⟩ := drop_add_of_prefix hp
        rw [(commonPrefixLen_eq_right_iff _ _).mpr hp] at h
        rw [if_pos hp, ← hdrop]
        refine followChild_sound (fun hcne hlong hnext => ?_) h
        refine ih hcne hfits.2 (fun e he => hclosed e (.extBelow he))
          (hclosed _ (.extChild hlong)).1 hrest ?_ hnext
        have := hp.length_le
        rw [List.length_drop] at this
        omega
    | branch cs v =>
      simp only [toNode] at h
      cases hkey : nibbles.drop depth with
      | nil =>
        have hend := (drop_eq_nil_iff_depth hdepth).mpr hkey
        rw [if_pos hend] at h
        split at h
        · exact absurd (ok.inj h) (by decide)
        · exact (eq_of_beq (ok.inj h)).symm
      | cons a k =>
        obtain ⟨hget, hdrop, hnext, hlt⟩ := getElem?_of_drop hkey
        simp only [if_neg hlt, hget] at h
        rw [lookup_branch_cons, ← hdrop]
        refine followChild_sound (fun hcne hlong hrun => ?_) h
        exact ih hcne (hfits.1 a) (fun e he => hclosed e (.branchBelow he))
          (hclosed _ (.branchChild hlong)).1 hrest hnext hrun

/-- **Accepted proofs are true.** Whatever list of byte strings is given, if
`verify_proof` accepts a value (or the absence of one) for a key against the root of a
well-formed trie, the trie answers that key the same way. -/
theorem verifyProof_sound {key : Bytes} {expected : Option Bytes} {nodes : List Bytes}
    (hT : T.WellFormed) (hfree : CollisionFree (T.readable ∪ {e | e ∈ nodes}))
    (h : verifyProof T.root key expected nodes = .ok true) : T.get key = .ok expected := by
  obtain ⟨t, hrep⟩ := hT
  have hrep : Represents (T.readable ∪ {e | e ∈ nodes}) T t := hrep.subset Set.subset_union_left
  have h80 : [0x80] ∈ T.readable ∪ {e | e ∈ nodes} := .inl (.inl rfl)
  rw [hrep.get hfree h80]
  congr 1
  by_cases hnil : t = .nil
  · -- the empty trie: no node, or the encoding of the empty node
    have hroot := (hrep.root_eq_emptyRoot_iff hfree h80).mpr hnil
    rw [hnil, lookup_nil]
    cases nodes with
    | nil =>
      have hb := ok.inj h
      rw [Bool.and_eq_true, Option.isNone_iff_eq_none] at hb
      exact hb.2.symm
    | cons encoded rest =>
      have hencoded : encoded = [0x80] := by
        by_contra hdiff
        have hhash : keccak256 encoded ≠ T.root := by
          intro he
          rw [hroot, ← keccak256_emptyString] at he
          exact hdiff (hfree.eq (.inr (by simp)) h80 he)
        simp [verifyProof, verifyFrom, hhash] at h
      have hdec : TrieNode.decode [0x80] = .ok .empty := rfl
      have hkeccak : ¬ keccak256 [0x80] ≠ T.root := by
        rw [hroot, keccak256_emptyString]
        simp
      subst hencoded
      simp only [verifyProof, verifyFrom, if_neg hkeccak, hdec] at h
      exact (isNone_of_ok_isNone h).symm
  · have hroot : T.root = keccak256 (bytes t) := by rw [hrep.root, rootHash_of_ne_nil hnil]
    cases nodes with
    | nil =>
      have hb := ok.inj h
      rw [Bool.and_eq_true, beq_iff_eq] at hb
      exact absurd ((hrep.root_eq_emptyRoot_iff hfree h80).mp hb.1) hnil
    | cons encoded rest =>
      have hrun : verifyFrom (fromBytes key) expected 0 (keccak256 (bytes t))
          (encoded :: rest) = .ok true := by
        rw [← hroot]
        exact h
      exact verifyFrom_sound hfree hnil (hrep.sized.fits hrep.canonical) hrep.closed
        (hrep.held hnil).1 (fun e he => .inr he) (Nat.zero_le _) hrun

/-- Two keys with one nibble in common, and values that make every node a hashed one. -/
def longHistory : List TrieOp :=
  [.insert [0x12] (List.replicate 32 1) (by decide) (by decide),
   .insert [0x13] (List.replicate 32 2) (by decide) (by decide)]

def longTrie : MutableTrie MemoryTrieDB := (runAll longHistory (new ⟨[]⟩)).2

theorem readable_history (ops : List TrieOp) : (runAll ops (new (⟨[]⟩ : MemoryTrieDB))).2.readable ⊆
      hashedBytes (runAll ops (new (⟨[]⟩ : MemoryTrieDB))).2 := by
  have hdb := (later_runAll ops (new (⟨[]⟩ : MemoryTrieDB))).1
  generalize (runAll ops (new (⟨[]⟩ : MemoryTrieDB))).2 = T at hdb ⊢
  rintro e (rfl | ⟨h, he⟩)
  · exact emptyString_mem_hashedBytes _
  unfold nodeBytes at he
  cases hl : T.cache.lookup h with
  | none =>
    rw [hl, hdb] at he
    simp [TrieDB.get, new] at he
  | some b =>
    rw [hl] at he
    obtain ⟨newer, older, hcache, -⟩ := List.lookup_eq_some_iff.mp hl
    have hmem : (h, b) ∈ T.cache := by rw [hcache]; simp
    cases he
    exact List.mem_cons_of_mem _ (List.mem_map_of_mem hmem)

/-- The way to the second key, through an extension and a branch. -/
theorem verifyProof_sound_longTrie :
    verifyProof longTrie.root [0x13] (some (List.replicate 32 2))
      ((longTrie.cache.take 3).map Prod.snd) = .ok true ∧
    longTrie.get [0x13] = .ok (some (List.replicate 32 2)) := by
  have hhashed : CollisionFree (hashedBytes longTrie) := collisionFree_of_nodup (by decide +kernel)
  have hfree : CollisionFree (longTrie.readable ∪
      {e | e ∈ (longTrie.cache.take 3).map Prod.snd}) := by
    apply hhashed.mono
    rintro e (he | he)
    · exact readable_history _ he
    · exact List.mem_cons_of_mem _ (List.map_subset _ (List.take_subset 3 _) he)
  have haccept : verifyProof longTrie.root [0x13] (some (List.replicate 32 2))
      ((longTrie.cache.take 3).map Prod.snd) = .ok true := by decide +kernel
  exact ⟨haccept, verifyProof_sound (wellFormed_history _ _ hhashed) hfree haccept⟩

end MerkleProof

end ZbxChain

/-!
## What a database keeps of a trie

A trie that is dropped leaves behind what its database holds.
-/

namespace ZbxChain.MutableTrie

open NibbleTree TrieOp

variable {DB : Type} [TrieDB DB]

def storedBytes (db : DB) : Set Bytes :=
  {e | e = [0x80] ∨ ∃ h, TrieDB.get db h = .ok (some e)}

def ContentAddressed (db : DB) : Prop :=
  ∀ h e, TrieDB.get db h = .ok (some e) → h = keccak256 e

/-- The trie opened at `root` reads every key without missing a node. -/
def Answers (db : DB) (root : H256) : Prop :=
  ∀ key h, (fromRoot root db).get key ≠ .error (.err (.missingNode h))

/-- The database holds every node of the trie of the map `m`. -/
def Stores (db : DB) (m : Bytes → Option Bytes) : Prop :=
  ∃ root, Models Set.univ (fromRoot root db) m

theorem nodeBytes_fromRoot (root : H256) (db : DB) (h : H256) (e : Bytes) :
    (fromRoot root db).nodeBytes h = some e ↔ TrieDB.get db h = .ok (some e) := by
  simp only [nodeBytes, fromRoot, List.lookup_nil]
  cases TrieDB.get db h with
  | ok o => simp
  | error x => simp

theorem readable_fromRoot (root : H256) (db : DB) :
    (fromRoot root db).readable = storedBytes db := by
  ext e
  simp only [readable, storedBytes, nodeBytes_fromRoot]

section

variable {S : Set Bytes} (hS : CollisionFree S) (h80 : [0x80] ∈ S) {T : MutableTrie DB}
  (haddr : ∀ h e, T.nodeBytes h = some e → h = keccak256 e ∧ e ∈ S)

include hS h80 haddr in
theorem held_of_resolve {e : Bytes} (he : e ∈ S) (hlong : 1 < e.length)
    (h : ∀ x, T.resolve (.hash (keccak256 e)) ≠ .error (.err (.missingNode x))) : Held S T e := by
  have hne := keccak256_ne_emptyRoot hS h80 he hlong
  refine ⟨he, ?_⟩
  cases hread : T.nodeBytes (keccak256 e) with
  | none =>
    simp only [resolve, if_neg hne, hread] at h
    exact absurd rfl (h _)
  | some e' =>
    obtain ⟨hhash, he'⟩ := haddr _ _ hread
    rw [hS.eq he he' hhash]

variable {depth fuel : Nat} {c t : NibbleTree} {key pre : Nibbles} {r : NodeRef}

theorem resolve_ne_missing
    (h : ∀ x, T.getNode (fuel + 1) r key depth ≠ .error (.err (.missingNode x))) (x : H256) :
    T.resolve r ≠ .error (.err (.missingNode x)) := by
  intro hr
  apply h x
  rw [getNode, hr]
  rfl

include hS h80 haddr in
theorem held_of_getNode (hne : t ≠ .nil) (hmem : bytes t ∈ S) (hlong : 32 ≤ (bytes t).length)
    (h : ∀ x, T.getNode (fuel + 1) (refOf (toNode t)) key depth ≠ .error (.err (.missingNode x))) :
    Held S T (bytes t) := by
  apply held_of_resolve hS h80 haddr hmem (by omega)
  have hres := resolve_ne_missing h
  unfold bytes at hlong
  rwa [refOf_of_ne_empty (toNode_ne_empty hne), if_neg (Nat.not_lt.mpr hlong)] at hres

/-- The lookups below `pre` of all keys of `t`, started at `r`, do not miss a node. -/
def Traversable (T : MutableTrie DB) (r : NodeRef) (pre : Nibbles) (t : NibbleTree) : Prop :=
  ∀ w v, Radix.lookup t w = some v → ∃ fuel, w.length < fuel ∧
    ∀ x, T.getNode fuel r (pre ++ w) pre.length ≠ .error (.err (.missingNode x))

theorem Traversable.extChild {p : Nibbles} (hp : p ≠ [])
    (hr : T.resolve r = .ok (toNode (.ext p c))) (h : Traversable T r pre (.ext p c)) :
    Traversable T (refOf (toNode c)) (pre ++ p) c := by
  intro w v hw
  obtain ⟨fuel, hfuel, hget⟩ := h (p ++ w) v (by rw [Radix.lookup_ext_append, hw])
  obtain ⟨fuel, rfl⟩ := succ_of_lt hfuel
  have hpos := List.length_pos_iff.mpr hp
  have hcp : Nibbles.commonPrefixLen ((pre ++ (p ++ w)).drop pre.length) p = p.length := by
    rw [commonPrefixLen_eq_right_iff, List.drop_left]
    exact List.prefix_append p w
  rw [List.length_append] at hfuel
  refine ⟨fuel, by omega, fun x => ?_⟩
  have := hget x
  simp only [getNode, hr, toNode, ok_bind, hcp, Nat.lt_irrefl, if_false] at this
  rwa [List.append_assoc, List.length_append]

theorem Traversable.branchChild {cs : Nibble → NibbleTree} {v : Option Bytes}
    (hr : T.resolve r = .ok (toNode (.branch cs v))) (h : Traversable T r pre (.branch cs v))
    (a : Nibble) : Traversable T (refOf (toNode (cs a))) (pre ++ [a]) (cs a) := by
  intro w x hw
  obtain ⟨fuel, hfuel, hget⟩ := h (a :: w) x (by rw [Radix.lookup_branch_cons, hw])
  obtain ⟨fuel, rfl⟩ := succ_of_lt hfuel
  rw [List.length_cons] at hfuel
  refine ⟨fuel, by omega, fun y => ?_⟩
  have := hget y
  have hdrop : (pre ++ a :: w).drop pre.length = a :: w := List.drop_left
  obtain ⟨hat, -, -, hend⟩ := getElem?_of_drop hdrop
  simp only [getNode, hr, toNode, ok_bind, if_neg hend, hat] at this
  rwa [List.append_assoc, List.length_append]

include hS h80 haddr

theorem Traversable.held (hcanon : Radix.Canonical c) (hmem : 32 ≤ (bytes c).length → bytes c ∈ S)
    (h : Traversable T (refOf (toNode c)) pre c) (hlong : 32 ≤ (bytes c).length) :
    Held S T (bytes c) := by
  have hne : c ≠ .nil := by
    rintro rfl
    exact absurd hlong (by decide)
  obtain ⟨w, v, hw⟩ := hcanon.exists_key hne
  obtain ⟨fuel, hfuel, hget⟩ := h w v hw
  obtain ⟨fuel, rfl⟩ := succ_of_lt hfuel
  exact held_of_getNode hS h80 haddr hne (hmem hlong) hlong hget

theorem closed_of_getNode (hcanon : Radix.Canonical t) (hfits : Fits t)
    (hmem : ∀ e, Linked t e → e ∈ S) (hr : T.resolve r = .ok (toNode t))
    (h : Traversable T r pre t) : Closed S T t := by
  induction t generalizing r pre with
  | nil => exact closed_nil T
  | leaf p v => exact closed_leaf p v
  | ext p c ih =>
    have hc := h.extChild hcanon.ext_inv.1 hr
    have hheld := hc.held hS h80 haddr hcanon.ext_inv.2 fun hl => hmem _ (.extChild hl)
    refine closed_ext.mpr ⟨hheld, ?_⟩
    exact ih hcanon.ext_inv.2 hfits.2 (fun e he => hmem e (.extBelow he))
      (resolve_refOf_of_held hS h80 hfits.2 hheld) hc
  | branch cs v ih =>
    refine closed_branch.mpr fun a => ?_
    have hc := h.branchChild hr a
    have hheld := hc.held hS h80 haddr (hcanon.child a) fun hl => hmem _ (.branchChild hl)
    exact ⟨hheld, ih a (hcanon.child a) (hfits.1 a) (fun e he => hmem e (.branchBelow he))
      (resolve_refOf_of_held hS h80 (hfits.1 a) hheld) hc⟩

end

variable {D : Type} [TrieDB D] {db : D} {S : Set Bytes} {T : MutableTrie DB} {t : NibbleTree}
  {m : Bytes → Option Bytes} (hfree : CollisionFree (S ∪ storedBytes db))
  (haddr : ContentAddressed db)

omit [TrieDB DB] in
theorem emptyString_mem_storedBytes : [0x80] ∈ S ∪ storedBytes db := .inr (.inl rfl)

include hfree haddr

theorem represents_of_answers (hT : Represents S T t) (hm : MapOf t m)
    (h : Answers db T.root) : Represents (S ∪ storedBytes db) (fromRoot T.root db) t := by
  have h80 : [0x80] ∈ S ∪ storedBytes db := emptyString_mem_storedBytes
  have hread : ∀ h e, (fromRoot T.root db).nodeBytes h = some e →
      h = keccak256 e ∧ e ∈ S ∪ storedBytes db := by
    intro h e he
    rw [nodeBytes_fromRoot] at he
    exact ⟨haddr h e he, .inr (.inr ⟨h, he⟩)⟩
  by_cases hnil : t = .nil
  · subst hnil
    exact ⟨hT.canonical, hT.sized, closed_nil _, hT.root, fun hne => absurd rfl hne⟩
  have hroot : T.root ≠ emptyRoot := by
    intro he
    have hsub : Represents (S ∪ storedBytes db) T t := hT.subset Set.subset_union_left
    exact hnil ((hsub.root_eq_emptyRoot_iff hfree h80).mp he)
  -- every key of the tree is a byte key, which the database answers
  have htrav : Traversable (fromRoot T.root db) (.hash T.root) [] t := by
    intro w v hw
    obtain ⟨key, rfl, -⟩ := (hm w v).mp hw
    refine ⟨(Nibbles.fromBytes key).length + 1, Nat.lt_succ_self _, fun x => ?_⟩
    have := h key x
    unfold get at this
    rwa [if_neg (show (fromRoot T.root db).root ≠ emptyRoot from hroot)] at this
  obtain ⟨w, v, hw⟩ := hT.canonical.exists_key hnil
  obtain ⟨fuel, hfuel, hget⟩ := htrav w v hw
  obtain ⟨fuel, rfl⟩ := succ_of_lt hfuel
  have hres := resolve_ne_missing hget
  rw [hT.root, rootHash_of_ne_nil hnil] at hres
  have hheld := held_of_resolve hfree h80 (T := fromRoot T.root db) hread
    (.inl (hT.held hnil).1) (one_lt_length_bytes hnil) (by rwa [hT.root, rootHash_of_ne_nil hnil])
  have hfits := hT.sized.fits hT.canonical
  have hresolve : (fromRoot T.root db).resolve (.hash T.root) = .ok (toNode t) := by
    have hbytes := hheld.2
    rw [← rootHash_of_ne_nil hnil, ← hT.root] at hbytes
    simp only [resolve, if_neg hroot, hbytes]
    exact decode_toNode hfits
  exact ⟨hT.canonical, hT.sized, closed_of_getNode hfree h80 hread hT.canonical hfits
    (fun e he => .inl (hT.closed e he).1) hresolve htrav, hT.root, fun _ => hheld⟩

theorem answers_iff_stores (hT : Models S T m) : Answers db T.root ↔ Stores db m := by
  have h80 : [0x80] ∈ S ∪ storedBytes db := emptyString_mem_storedBytes
  obtain ⟨t, hrep, hm⟩ := hT
  constructor
  · intro h
    have hdb := represents_of_answers hfree haddr hrep hm h
    exact ⟨T.root, t, hdb.subset (Set.subset_univ _), hm⟩
  rintro ⟨root, t', hrep', hm'⟩ key x
  have htree := hm.tree_eq hrep.canonical hrep'.canonical hm'
  subst htree
  have hroot : T.root = root := hrep.root.trans hrep'.root.symm
  have hsub : (fromRoot root db).readable ⊆ S ∪ storedBytes db := by
    rw [readable_fromRoot]
    exact Set.subset_union_right
  rw [hroot, (hrep'.readable.subset hsub).get hfree h80]
  simp

end ZbxChain.MutableTrie
